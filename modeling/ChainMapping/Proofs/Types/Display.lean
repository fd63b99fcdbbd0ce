import ChainMapping.Proofs.Types.Grammar

/-!
# Types as they are displayed

A type that was read from an expression is displayed as another expression of it, whatever blanks
the first one had.  So types that were read are told apart by how they are displayed.
-/

namespace ChainMapping
namespace TypeRef

variable {classify : String → Option Kind} {text : List Char} {expression : String} {t : TypeRef}

theorem ne_array_of_container {name : String} {kind : Kind}
    (h : Kind.ofContainerName? name = some kind) : kind ≠ .array := by
  have hall : Kind.containerNames.all (·.2 != .array) = true := by decide
  simpa using List.all_eq_true.mp hall (name, kind) (Ordered.mem_of_lookup h)

theorem display_name (name : String) (kind : Kind) : display ⟨name, kind, []⟩ = name := by
  cases kind <;> rfl

theorem display_generic {kind : Kind} (h : kind ≠ .array) (name : String) (first : TypeRef)
    (rest : List TypeRef) :
    display ⟨name, kind, first :: rest⟩
      = name ++ "<" ++ first.display ++ displayRest rest ++ ">" := by
  cases kind <;> first | rfl | exact absurd rfl h

/-- A type that has an expression is displayed as one. -/
theorem IsExpression.display (h : IsExpression classify text t) :
    IsExpression classify t.display.toList t := by
  have hblank : Text.isAllBlank [] = true := rfl
  have hspace : Text.isAllBlank [' '] = true := rfl
  induction h with
  | known isName free known =>
    rw [display_name]
    exact .known isName free known
  | raw container =>
    rw [display_name]
    exact .raw container
  | collection container single _ _ ih =>
    rw [display_generic (ne_array_of_container container), displayRest]
    simpa using IsExpression.collection container single hblank ih
  | @map _ _ _ _ _ value container _ _ _ ihKey ihValue =>
    have hvalue : IsExpression classify ([' '] ++ value.display.toList ++ []) value :=
      .spaced hspace hblank ihValue
    rw [display_generic (by simp), displayRest, displayRest]
    simpa using IsExpression.map container hblank ihKey hvalue
  | array _ ih =>
    rw [arrayOf, TypeRef.display, String.toList_append]
    exact .array ih
  | spaced _ _ _ ih => exact ih

/-- What a type is displayed as is read as the same type again. -/
theorem parse_display (h : parse classify expression = .ok t) :
    parse classify t.display = .ok t
      ∧ ∀ expression' t', parse classify expression' = .ok t' →
        (t' = t ↔ t'.display = t.display) := by
  have hself {expression : String} {t : TypeRef} (h : parse classify expression = .ok t) :
      parse classify t.display = .ok t := (isExpression_of_parse h).display.parse_eq
  refine ⟨hself h, fun expression' t' h' => ⟨fun heq => by rw [heq], fun hdisplay => ?_⟩⟩
  have hsame := hself h'
  rw [hdisplay, hself h] at hsame
  exact (Except.ok.inj hsame).symm

/-- Orders are known, and nothing else. -/
def knowsOrders (name : String) : Option Kind :=
  if name = "Order" then some .object else none

def ordersByName : TypeRef :=
  ⟨"Map", .map, [⟨"String", .scalar, []⟩, .arrayOf ⟨"List", .list, [⟨"Order", .object, []⟩]⟩]⟩

/-- Blanks before brackets and the missing one after the comma are not kept. -/
theorem parse_display_ordersByName :
    parse knowsOrders " Map <String,List< Order > [] >" = .ok ordersByName
      ∧ ordersByName.display = "Map<String, List<Order>[]>"
      ∧ parse knowsOrders "Map<String, List<Order>[]>" = .ok ordersByName := by
  have hparse : parse knowsOrders " Map <String,List< Order > [] >" = .ok ordersByName := by
    decide +kernel
  have hdisplay : ordersByName.display = "Map<String, List<Order>[]>" := by decide +kernel
  exact ⟨hparse, hdisplay, hdisplay ▸ (parse_display hparse).1⟩

end TypeRef
end ChainMapping
