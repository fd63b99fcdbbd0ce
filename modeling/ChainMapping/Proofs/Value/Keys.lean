import Mathlib.Data.List.Nodup
import ChainMapping.Json.Reader
import ChainMapping.Proofs.Text.Characters
import ChainMapping.Proofs.Value.Places

/-!
# Keys of maps

The names of the members of a table are distinct texts, and stay distinct as the keys of a map
unless they are read as integers.  An integer can be written in several ways: with a plus sign, or
with zeros in front.  So the keys of all maps in a value are distinct exactly if, wherever integer
keys are expected, no two names are the same numeral but for those signs and zeros.
-/

namespace ChainMapping

open Relation

namespace Conversion

/-! ## Numerals -/

/-- Whether a text begins with a minus sign, and what comes after a sign. -/
def signed (text : String) : Bool × List Char :=
  match text.toList with
  | '-' :: rest => (true, rest)
  | '+' :: rest => (false, rest)
  | cs => (false, cs)

/-- A numeral without a plus sign, without zeros in front and without the sign of zero. -/
def numeral (text : String) : Bool × List Char :=
  let digits := Text.significant (signed text).2
  ((signed text).1 && !digits.isEmpty, digits)

variable {a b text : String} {n m : Int}

theorem eq_of_int? (h : int? (.int n) = some m) : n = m := by
  rw [int?] at h
  split at h
  · exact Option.some.inj h
  · cases h

theorem parseInt?_eq_some (h : parseInt? text = some n) :
    (signed text).2.all Text.isDigit = true
      ∧ n = if (signed text).1 then -(Text.digitsValue (signed text).2 : Int)
        else Text.digitsValue (signed text).2 := by
  -- The definition takes the sign and the digits apart where `signed` is used here.
  change (if (signed text).2.isEmpty || !(signed text).2.all Text.isDigit then none
    else int? (.int (if (signed text).1 then -(Text.digitsValue (signed text).2 : Int)
      else Text.digitsValue (signed text).2))) = some n at h
  by_cases hdigits : ((signed text).2.isEmpty || !(signed text).2.all Text.isDigit) = true
  · rw [if_pos hdigits] at h
    cases h
  · rw [if_neg hdigits] at h
    rw [Bool.or_eq_true, not_or, Bool.not_eq_true', Bool.not_eq_false] at hdigits
    exact ⟨hdigits.2, (eq_of_int? h).symm⟩

/-- A numeral shows the sign of the integer and its absolute value. -/
theorem numeral_of_parseInt? (h : parseInt? text = some n) :
    (numeral text).1 = decide (n < 0) ∧ Text.digitsValue (signed text).2 = n.natAbs := by
  obtain ⟨hdigits, hn⟩ := parseInt?_eq_some h
  have hnil := Text.significant_eq_nil_iff hdigits
  rw [numeral]
  cases hsign : (signed text).1 with
  | false =>
    rw [hsign, if_neg Bool.false_ne_true] at hn
    refine ⟨?_, by omega⟩
    rw [Bool.false_and, eq_comm, decide_eq_false_iff_not]
    omega
  | true =>
    rw [hsign, if_pos rfl] at hn
    refine ⟨?_, by omega⟩
    rw [Bool.true_and, Bool.eq_iff_iff, Bool.not_eq_true', List.isEmpty_eq_false_iff, ne_eq, hnil,
      decide_eq_true_eq]
    omega

/-- Two texts are read as the same integer exactly if they are the same numeral. -/
theorem parseInt?_eq_iff (ha : parseInt? a = some n) (hb : parseInt? b = some m) :
    n = m ↔ numeral a = numeral b := by
  obtain ⟨hasign, havalue⟩ := numeral_of_parseInt? ha
  obtain ⟨hbsign, hbvalue⟩ := numeral_of_parseInt? hb
  have hdigits : Text.digitsValue (signed a).2 = Text.digitsValue (signed b).2
      ↔ (numeral a).2 = (numeral b).2 :=
    Text.digitsValue_eq_iff (parseInt?_eq_some ha).1 (parseInt?_eq_some hb).1
  rw [Prod.ext_iff, ← hdigits, hasign, hbsign, havalue, hbvalue, decide_eq_decide]
  omega

variable {type : Option TypeRef}

theorem keyOf?_eq_iff_of_text (h : keepsText type = true) :
    keyOf? type a = keyOf? type b ↔ a = b := by
  rw [keyOf?, keyOf?, if_pos h, if_pos h, Option.some.injEq, Value.text.injEq]

theorem keyOf?_eq_iff_of_integer (h : keepsText type = false) {k l : Value}
    (ha : keyOf? type a = some k) (hb : keyOf? type b = some l) :
    keyOf? type a = keyOf? type b ↔ numeral a = numeral b := by
  rw [ha, hb, Option.some.injEq]
  rw [keyOf?, if_neg (Bool.not_eq_true _ ▸ h)] at ha hb
  obtain ⟨n, hn, rfl⟩ := Option.map_eq_some_iff.mp ha
  obtain ⟨m, hm, rfl⟩ := Option.map_eq_some_iff.mp hb
  rw [Value.int.injEq, parseInt?_eq_iff hn hm]

end Conversion

/-! ## Distinct keys -/

/-- In no map below a value do two entries have the same key. -/
def Store.HasDistinctKeys (s : Store) (v : Value) : Prop :=
  ∀ (id : Nat) contents, ReflTransGen s.Leads v (.map id) → s.maps[id]? = some contents →
    (contents.map Prod.fst).Nodup

/-- Where a map with integer keys is expected, no two members of a table have names that are the
same numeral. -/
def Place.NamesApart (x : Place) : Prop :=
  ∀ type members, x = ⟨some type, .table members⟩ → type.isMap = true →
    Conversion.keepsText type.args[0]? = false →
    ∀ a ∈ Ordered.keys members, ∀ b ∈ Ordered.keys members,
      Conversion.numeral a = Conversion.numeral b → a = b

section

variable {schema : Schema} {store : Store} {bound : Nat} {d : Document} {v : Value}

/-- The entries of a map have distinct keys exactly if the names that they come from are apart. -/
theorem nodup_keys_iff {type : Option TypeRef} {members : List (String × Document)}
    {contents : List (Value × Value)} (hnames : (Ordered.keys members).Nodup)
    (hkind : ∀ t, type = some t → t.isMap = true)
    (hkeys : contents.map (some ·.1)
      = members.map fun member => Conversion.keyOf? (type.bind (·.args[0]?)) member.1) :
    (contents.map Prod.fst).Nodup ↔ Place.NamesApart ⟨type, .table members⟩ := by
  have hcontents : contents.map (some ·.1) = (contents.map Prod.fst).map some := by
    rw [List.map_map]
    rfl
  have hmembers : (members.map fun member => Conversion.keyOf? (type.bind (·.args[0]?)) member.1)
      = (Ordered.keys members).map (Conversion.keyOf? (type.bind (·.args[0]?))) := by
    rw [Ordered.keys, List.map_map]
    rfl
  rw [hcontents, hmembers] at hkeys
  -- Every name could be read as a key, or else there would be no map.
  have hread : ∀ name ∈ Ordered.keys members, ∃ k,
      Conversion.keyOf? (type.bind (·.args[0]?)) name = some k := by
    intro name hmem
    have hkey := List.mem_map_of_mem (f := Conversion.keyOf? (type.bind (·.args[0]?))) hmem
    rw [← hkeys] at hkey
    obtain ⟨k, -, hk⟩ := List.mem_map.mp hkey
    exact ⟨k, hk.symm⟩
  rw [← List.nodup_map_iff (Option.some_injective Value), hkeys,
    List.nodup_map_iff_inj_on hnames]
  cases htext : Conversion.keepsText (type.bind (·.args[0]?)) with
  | true =>
    refine ⟨fun _ type' members' heq _ hinteger => ?_, fun _ a _ b _ => ?_⟩
    · cases heq
      rw [Option.bind_some, hinteger] at htext
      cases htext
    · exact (Conversion.keyOf?_eq_iff_of_text htext).mp
  | false =>
    have hsame : ∀ a ∈ Ordered.keys members, ∀ b ∈ Ordered.keys members,
        Conversion.keyOf? (type.bind (·.args[0]?)) a = Conversion.keyOf? (type.bind (·.args[0]?)) b
          ↔ Conversion.numeral a = Conversion.numeral b := by
      intro a ha b hb
      obtain ⟨k, hk⟩ := hread a ha
      obtain ⟨l, hl⟩ := hread b hb
      exact Conversion.keyOf?_eq_iff_of_integer htext hk hl
    refine ⟨fun h type' members' heq _ _ a ha b hb hab => ?_, fun h a ha b hb hab => ?_⟩
    · cases heq
      exact h a ha b hb ((hsame a ha b hb).mpr hab)
    · cases type with
      | none => cases htext
      | some type =>
        exact h type members rfl (hkind type rfl) htext a ha b hb ((hsame a ha b hb).mp hab)

theorem Document.Distinct.of_holds (h : d.Distinct) {type : Option TypeRef} {y : Place}
    (hy : ReflTransGen schema.Holds ⟨type, d⟩ y) : y.document.Distinct := by
  induction hy with
  | refl => exact h
  | tail _ hstep ih =>
    cases hstep with
    | item _ part => exact ih.of_mem (List.mem_of_getElem? part)
    | value _ member => exact ih.of_member (List.mem_of_getElem? member)
    | field _ _ _ _ member => exact ih.of_member (Ordered.mem_of_lookup member)

theorem throughout_namesApart_of_whole {type : Option TypeRef} (h : d.hasParts = false) :
    schema.Throughout Place.NamesApart ⟨type, d⟩ := by
  refine Schema.throughout_of_whole h fun type members heq => ?_
  cases heq
  cases h

/-- Only tables are made into maps. -/
theorem Made.exists_table {type : Option TypeRef} (h : Made schema store type bound d v) {id : Nat}
    (hv : v = .map id) : ∃ members contents, d = .table members
      ∧ (∀ t, type = some t → t.isMap = true) ∧ store.maps[id]? = some contents
      ∧ contents.map (some ·.1)
        = members.map fun member => Conversion.keyOf? (type.bind (·.args[0]?)) member.1 := by
  cases h with
  | plain =>
    have hplain := Conversion.isHandle_plain d
    rw [hv] at hplain
    cases hplain
  | scalar _ _ read =>
    have hplain := Conversion.isHandle_of_scalar? read
    rw [hv] at hplain
    cases hplain
  | null | object | sequence => cases hv
  | map kind made keys =>
    cases hv
    exact ⟨_, _, rfl, kind, made, keys⟩

/-- All maps in what a document is made into have distinct keys exactly if names are apart
throughout the document. -/
theorem Made.distinctKeys_iff {type : Option TypeRef} (h : Made schema store type bound d v)
    (hdistinct : d.Distinct) :
    store.HasDistinctKeys v ↔ schema.Throughout Place.NamesApart ⟨type, d⟩ := by
  refine ⟨fun hkeys y hy => ?_, fun hnames id contents hreach hcontents => ?_⟩
  · obtain ⟨bound', u, hu, hmade⟩ := h.exists_value_below hy
    have hy' := hdistinct.of_holds hy
    intro type' members' heq
    subst heq
    cases hmade with
    | scalar _ whole => cases whole
    | object hobject =>
      intro hmap
      exact (not_object_and_map hobject fun t ht => by cases ht; exact hmap).elim
    | map kind made keys =>
      exact (nodup_keys_iff hy'.nodup_keys kind keys).mp (hkeys _ _ hu made) _ _ rfl
  · obtain ⟨⟨type', d'⟩, bound', hy, hmade⟩ := h.exists_place_below hreach rfl
    obtain ⟨members, contents', rfl, kind, made, keys⟩ := hmade.exists_table rfl
    obtain rfl := Option.some.inj (made.symm.trans hcontents)
    exact (nodup_keys_iff (hdistinct.of_holds hy).nodup_keys kind keys).mpr (hnames _ hy)

theorem Json.distinct_of_readPlain {text : String} {d : Document} (h : readPlain text = .ok d) :
    d.Distinct := by
  unfold readPlain at h
  obtain ⟨read, -, h⟩ := bind_eq_ok h
  split at h
  · cases h
  · split at h
    · cases h
    · cases h
      exact Document.distinct_sorted read

/-- A document without repeated names that is converted gives a value with distinct keys in all of
its maps, exactly if no two names where integer keys are expected are the same numeral. -/
theorem Value.hasDistinctKeys_iff {type : TypeRef} {before : Store} (hdistinct : d.Distinct)
    (h : Value.ofDocument schema d type before = .ok (v, store)) :
    store.HasDistinctKeys v ↔ schema.Throughout Place.NamesApart ⟨some type, d⟩ :=
  (made_ofDocument h).distinctKeys_iff hdistinct

end

def examType : TypeRef := ⟨"Exam", .object, []⟩

/-- An exam with the names of the candidates by their seats. -/
def examSchema : Schema where
  types := [("Exam", ⟨.object, [("seats",
    ⟨"Map", .map, [⟨"Int", .scalar, []⟩, ⟨"String", .scalar, []⟩]⟩)]⟩)]

/-- Seats on both sides of the aisle. -/
def aisleExam : Document :=
  .table [("seats", .table [("-1", .text "Ada"), ("1", .text "Bob"), ("10", .text "Cid")])]

def aisleStore : Store where
  objects := #[⟨"Exam", [("seats", .map 0)]⟩]
  maps := #[[(.int (-1), .text "Ada"), (.int 1, .text "Bob"), (.int 10, .text "Cid")]]

theorem distinct_aisleExam : aisleExam.Distinct := by
  have hsorted : aisleExam.sorted = aisleExam := by rfl
  exact hsorted ▸ Document.distinct_sorted aisleExam

theorem namesApart_aisleExam :
    examSchema.Throughout Place.NamesApart ⟨some examType, aisleExam⟩ := by
  refine (Schema.throughout_object (.inl rfl) rfl rfl).mpr
    ⟨fun type members heq hmap => ?_, fun name field d hfield hmember => ?_⟩
  · cases heq
    cases hmap
  · have hmem := Ordered.mem_of_lookup hfield
    simp only [List.mem_singleton, Prod.mk.injEq] at hmem
    obtain ⟨rfl, rfl⟩ := hmem
    obtain rfl := Option.some.inj hmember
    refine (Schema.throughout_map fun t ht => by cases ht; rfl).mpr
      ⟨fun type members heq _ _ => ?_, fun i name d hpart => ?_⟩
    · cases heq
      decide
    · have hwhole : ∀ member ∈
          [("-1", Document.text "Ada"), ("1", .text "Bob"), ("10", .text "Cid")],
          member.2.hasParts = false := by decide
      exact throughout_namesApart_of_whole (hwhole _ (List.mem_of_getElem? hpart))

/-- Each seat is taken once. -/
theorem Value.hasDistinctKeys_iff_aisleExam :
    aisleExam.Distinct
      ∧ Value.ofDocument examSchema aisleExam examType {} = .ok (.object 0, aisleStore)
      ∧ aisleStore.HasDistinctKeys (.object 0) := by
  have hmade : ofDocument examSchema aisleExam examType {} = .ok (.object 0, aisleStore) := rfl
  exact ⟨distinct_aisleExam, hmade,
    (hasDistinctKeys_iff distinct_aisleExam hmade).mpr namesApart_aisleExam⟩

/-- One seat, and another whose number has a zero in front. -/
def crowdedExam : Document :=
  .table [("seats", .table [("01", .text "Ada"), ("1", .text "Bob")])]

def crowdedStore : Store where
  objects := #[⟨"Exam", [("seats", .map 0)]⟩]
  maps := #[[(.int 1, .text "Ada"), (.int 1, .text "Bob")]]

/-- Two candidates sit on the same seat. -/
theorem Value.not_hasDistinctKeys_crowdedExam :
    crowdedExam.Distinct
      ∧ Value.ofDocument examSchema crowdedExam examType {} = .ok (.object 0, crowdedStore)
      ∧ ¬ crowdedStore.HasDistinctKeys (.object 0) := by
  have hsorted : crowdedExam.sorted = crowdedExam := rfl
  refine ⟨hsorted ▸ Document.distinct_sorted crowdedExam, rfl, fun hkeys => ?_⟩
  have hseats : crowdedStore.Leads (.object 0) (.map 0) :=
    @Store.Leads.field crowdedStore 0 _ "seats" _ rfl rfl
  have hnodup : [Value.int 1, Value.int 1].Nodup := hkeys 0 _ (.single hseats) rfl
  simp at hnodup

end ChainMapping
