import ChainMapping.Document.Record
import ChainMapping.Toml.Reader
import ChainMapping.Toml.Writer
import ChainMapping.Tree.Node

/-!
# Mapping scripts

A script names a source type, a target type and the commands between them.  A command takes what a
source chain addresses to where a target chain points; without a source chain it only addresses the
target.  Overrides name concrete types for places where the schema leaves the type open.

A script is written in TOML.
-/

namespace ChainMapping

/-- One correspondence of a script. -/
structure ScriptCommand where
  id : String
  source : Option String := none
  target : String
  converter : Option String := none
  deriving DecidableEq, Repr

/-- The concrete type for the node at a chain in normal form. -/
structure TypeOverride where
  side : Side
  path : String
  concrete : String
  deriving DecidableEq, Repr

structure Script where
  id : String
  sourceType : String
  targetType : String
  /-- the namespace of the generated names -/
  space : Option String := none
  commands : List ScriptCommand := []
  overrides : List TypeOverride := []
  deriving DecidableEq, Repr

open Document in
def ScriptCommand.ofDocument (format : Format) (d : Document) :
    Except ReadError ScriptCommand := do
  match ← record format ["id", "from", "to", "converter"] d with
  | [id, source, target, converter] =>
    return {
      id := ← required readText id
      source := ← optional readText source
      target := ← required readText target
      converter := ← optional readText converter }
  | _ => throw ⟨"table expected"⟩

open Document in
def TypeOverride.ofDocument (format : Format) (d : Document) : Except ReadError TypeOverride := do
  match ← record format ["side", "token_path", "concrete_type"] d with
  | [side, path, concrete] =>
    return {
      side := ← required (readWord format Side.ofLabel?) side
      path := ← required readText path
      concrete := ← required readText concrete }
  | _ => throw ⟨"table expected"⟩

def ScriptCommand.toToml (c : ScriptCommand) : String :=
  "\n[[commands]]\n" ++ Toml.textLine "id" c.id
    ++ ((c.source.map (Toml.textLine "from")).getD "")
    ++ Toml.textLine "to" c.target
    ++ ((c.converter.map (Toml.textLine "converter")).getD "")

def TypeOverride.toToml (o : TypeOverride) : String :=
  "\n[[overrides]]\n" ++ Toml.textLine "side" o.side.label ++ Toml.textLine "token_path" o.path
    ++ Toml.textLine "concrete_type" o.concrete

namespace Script

/-- The overrides for one side, in the order of the script. -/
def overridesFor (s : Script) (side : Side) : List TypeOverride :=
  s.overrides.filter (·.side = side)

open Document in
def ofDocument (format : Format) (d : Document) : Except ReadError Script := do
  match ← record format
    ["id", "source_type", "target_type", "namespace", "commands", "overrides"] d with
  | [id, sourceType, targetType, space, commands, overrides] =>
    return {
      id := ← required readText id
      sourceType := ← required readText sourceType
      targetType := ← required readText targetType
      space := ← optional readText space
      commands := ← withDefault [] (readList (ScriptCommand.ofDocument format)) commands
      overrides := ← withDefault [] (readList (TypeOverride.ofDocument format)) overrides }
  | _ => throw ⟨"table expected"⟩

/-- Reads a script. -/
def ofToml (text : String) : Except ReadError Script := Toml.read text >>= ofDocument .toml

/-- Writes a script. -/
def toToml (s : Script) : String :=
  Toml.textLine "id" s.id ++ Toml.textLine "source_type" s.sourceType
    ++ Toml.textLine "target_type" s.targetType
    ++ ((s.space.map (Toml.textLine "namespace")).getD "")
    ++ (if s.commands.isEmpty then "commands = []\n" else "")
    ++ String.join (s.commands.map ScriptCommand.toToml)
    ++ String.join (s.overrides.map TypeOverride.toToml)

end Script
end ChainMapping
