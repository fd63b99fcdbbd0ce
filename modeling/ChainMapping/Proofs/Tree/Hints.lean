import ChainMapping.Proofs.Tree.Stability
import ChainMapping.Schema.Basic

/-!
# Type hints

A hint decides the type of a node that is made for its segment.  A node that is there already keeps
its type, and only the name of that type is held against the hint.  Types that differ in their
arguments have the same name, so a hint may be let pass where it denotes another type.  Nothing else
can go wrong: a chain that is resolved honours its hints exactly if none of them meets such a
namesake, and a hint that does not name the type that it meets is an error.
-/

namespace ChainMapping

namespace Basis

variable {b : Basis} {chain : String} {token : Token} {parent : Option Portrait} {d : Draft}

theorem Drafted.tokenIndex_eq {field : FieldType} {concrete : Option TypeRef}
    (h : b.Drafted chain token parent d field concrete) {p : Portrait} (hp : p ∈ d.all) :
    p.tokenIndex = token.index := by
  rcases List.mem_cons.mp hp with rfl | hmem
  · rw [h.field_eq]
    rfl
  · obtain ⟨key, role, hint, element, -, hmember⟩ := exists_member_of_mem h.members_eq hmem
    obtain ⟨types, -, rfl⟩ := map_eq_ok hmember
    rfl

end Basis

namespace Resolve

variable {i : Introspector} {chain : String} {w : Work}

/-- A hint that denotes a type. -/
def Denotes (i : Introspector) (token : Token) (type : TypeRef) : Prop :=
  ∀ hint, token.hint = some hint → i.typeRef hint = .ok type

theorem Denotes.heeds {token : Token} {type : TypeRef} (h : Denotes i token type) :
    Heeds i token type :=
  fun hint hhint => .inr ⟨type, h hint hhint, rfl⟩

/-- What segments make is numbered like the segments. -/
theorem ends_steps_tokenIndex {tokens : List Token} {current : Option Nat} {index : Nat}
    (h : w.tree.WellFormed) (hat : w.tree.At current index)
    (hnumbered : Chain.NumberedFrom index tokens)
    (hnames : ∀ token ∈ tokens, Chain.IsName token.name) :
    Ends (steps i chain current tokens) w
      (fun _ w' => ∀ p ∈ w'.tree.portraits,
        p ∈ w.tree.portraits ∨ p.tokenIndex < index + tokens.length)
      (fun _ _ => True) := by
  induction tokens generalizing w current index with
  | nil => exact Ends.pure fun p hp => .inl hp
  | cons token rest ih =>
    obtain ⟨rfl, hrest⟩ := hnumbered
    have hname := hnames token List.mem_cons_self
    have hnames' : ∀ token ∈ rest, Chain.IsName token.name :=
      fun token hmem => hnames token (List.mem_cons_of_mem _ hmem)
    refine Ends.bind (Ends.mono (Ends.and (ends_step h.toSound h (.refl _) hat hname)
      (drafts_step h hat hname)) (fun _ _ hok => hok) (fun _ _ _ => trivial)) ?_
    rintro next w₁ ⟨⟨hwf, -, -, -, hnext⟩, hhow⟩
    refine (ih hwf hnext hrest hnames').mono ?_ (fun _ _ _ => trivial)
    intro last w₂ hmade p hp
    rw [List.length_cons]
    rcases hmade p hp with hhere | hlater
    · rcases hhow with ⟨hsame, -⟩ | ⟨-, d, hd, hportraits⟩
      · exact .inl (hsame ▸ hhere)
      · rw [hportraits] at hhere
        rcases List.mem_append.mp hhere with hold | hnew
        · exact .inl hold
        · obtain ⟨field, concrete, hdrafted⟩ := Basis.drafted_of_ok hd
          have hindex := hdrafted.tokenIndex_eq hnew
          exact .inr (by omega)
    · exact .inr (by omega)

/-- A segment leads to a node whose type its hint denotes, unless the node was there at the start:
nodes with the number of the segment have not been made since. -/
theorem ends_step_denotes {token : Token} {current : Option Nat} {start : Tree}
    (h : w.tree.WellFormed) (hat : w.tree.At current token.index) (hname : Chain.IsName token.name)
    (hmade : ∀ p ∈ w.tree.portraits, p ∈ start.portraits ∨ p.tokenIndex < token.index) :
    Ends (step i chain current token) w
      (fun next w' => ∃ n, w'.tree.node? next = some n
        ∧ (Denotes i token n.effectiveType
          ∨ Heeds i token n.effectiveType ∧ w.tree.portraitOf n ∈ start.portraits))
      (fun _ _ => True) := by
  refine Ends.mono (Ends.and (ends_step h.toSound h (.refl _) hat hname)
    (drafts_step h hat hname)) ?_ (fun _ _ _ => trivial)
  rintro next w₁ ⟨⟨hwf, he, -, hstop, n, hn, -, hindex⟩, hhow⟩
  refine ⟨n, hn, ?_⟩
  rcases hhow with ⟨hsame, m, hm, hheeds⟩ | ⟨-, d, hd, hportraits⟩
  · rw [hsame, hm, Option.some.injEq] at hn
    subst hn
    rcases hmade _ (Tree.portraitOf_mem hm) with hold | hnew
    · exact .inr ⟨hheeds, hold⟩
    · have hlower : m.tokenIndex < token.index := hnew
      omega
  · refine .inl fun hint hhint => ?_
    obtain ⟨field, concrete, hdrafted⟩ := Basis.drafted_of_ok hd
    rw [hwf.effectiveType_made he hat hstop hd hportraits hn]
    exact hdrafted.typeRef_hint hhint

/-- Going along segments, one of them is met after those before it and before the others. -/
theorem steps_split {tokens : List Token} {current last : Option Nat} {w' : Work}
    (hrun : steps i chain current tokens w = .ok last w') {k : Nat} {token : Token}
    (htoken : tokens[k]? = some token) :
    ∃ mid w₁ next w₂, steps i chain current (tokens.take k) w = .ok mid w₁
      ∧ step i chain mid token w₁ = .ok next w₂
      ∧ steps i chain (some next) (tokens.drop (k + 1)) w₂ = .ok last w' := by
  obtain ⟨hk, htoken⟩ := List.getElem?_eq_some_iff.mp htoken
  rw [← List.take_append_drop k tokens, List.drop_eq_getElem_cons hk, htoken, steps_append] at hrun
  obtain ⟨mid, w₁, hbefore, hrest⟩ := run_bind_eq_ok hrun
  obtain ⟨next, w₂, hhere, hafter⟩ := run_bind_eq_ok hrest
  exact ⟨mid, w₁, next, w₂, hbefore, hhere, hafter⟩

end Resolve

namespace Tree

variable {t t' : Tree} {i : Introspector} {text : String} {c : Chain} {leaf : Nat}

/-- The type of the node that a segment of a chain leads to, if the node is there. -/
def typeAt? (t : Tree) (c : Chain) (k : Nat) : Option TypeRef :=
  ((t.findByPath? (c.normalPrefix k)).bind t.node?).map Node.effectiveType

/-- Every hint of a chain denotes the type of the node that its segment leads to. -/
def HintsHonoured (t : Tree) (i : Introspector) (c : Chain) : Prop :=
  ∀ (k : Nat) (token : Token) (hint : String), c.tokens[k]? = some token →
    token.hint = some hint → ∃ type, t.typeAt? c k = some type ∧ i.typeRef hint = .ok type

/-- A hint of a chain stands at a node that is there, and names the type of that node without
denoting it. -/
def MeetsNamesake (t : Tree) (i : Introspector) (c : Chain) : Prop :=
  ∃ (k : Nat) (token : Token) (hint : String) (type : TypeRef), c.tokens[k]? = some token
    ∧ token.hint = some hint ∧ t.typeAt? c k = some type ∧ Resolve.Heeds i token type
    ∧ i.typeRef hint ≠ .ok type

theorem WellFormed.typeAt?_of_node (h : t.WellFormed) {id k : Nat} {n : Node}
    (hn : t.node? id = some n) (hpath : n.path = c.normalPrefix k) :
    t.typeAt? c k = some n.effectiveType := by
  rw [typeAt?, ← hpath, h.findByPath? hn, Option.bind_some, hn, Option.map_some]

theorem WellFormed.exists_node_of_typeAt? (h : t.WellFormed) {k : Nat} {type : TypeRef}
    (htype : t.typeAt? c k = some type) :
    ∃ id n, t.node? id = some n ∧ n.path = c.normalPrefix k ∧ n.effectiveType = type := by
  obtain ⟨n, hbind, rfl⟩ := Option.map_eq_some_iff.mp htype
  obtain ⟨id, hfind, hn⟩ := Option.bind_eq_some_iff.mp hbind
  obtain ⟨m, hm, hid⟩ := Option.map_eq_some_iff.mp hfind
  have hpath : m.path = c.normalPrefix k := by simpa using Array.find?_some hm
  obtain ⟨other, hother⟩ := Array.mem_iff_getElem?.mp (Array.mem_of_find?_eq_some hm)
  have hsame : other = id := (h.id_eq hother).symm.trans hid
  rw [hsame] at hother
  obtain rfl : m = n := Option.some.inj (hother.symm.trans hn)
  exact ⟨id, m, hn, hpath, rfl⟩

/-- A node keeps its type as the tree grows. -/
theorem WellFormed.typeAt?_mono (h : t.WellFormed) (h' : t'.WellFormed) (he : t.Extends t')
    {k : Nat} {type : TypeRef} (htype : t.typeAt? c k = some type) :
    t'.typeAt? c k = some type := by
  obtain ⟨id, n, hn, hpath, rfl⟩ := h.exists_node_of_typeAt? htype
  obtain ⟨children, hn'⟩ := he.node hn
  have htype' : t'.typeAt? c k = some { n with children }.effectiveType :=
    h'.typeAt?_of_node hn' hpath
  exact htype'

/-- A segment of a chain that has been resolved leads to a node.  If its hint does not denote the
type of the node, then the node was there before, and the hint is heeded. -/
theorem WellFormed.typeAt?_resolved (h : t.WellFormed)
    (hok : (t.resolveText i text).outcome = .ok (c, leaf)) {k : Nat} {token : Token}
    (htoken : c.tokens[k]? = some token) :
    ∃ type, (t.resolveText i text).tree.typeAt? c k = some type
      ∧ (Resolve.Denotes i token type
        ∨ Resolve.Heeds i token type ∧ t.typeAt? c k = some type) := by
  obtain ⟨hparse, -, w, hrun, htree⟩ := resolveText_ok hok
  have hproper := (Chain.proper_of_parse hparse).2
  obtain ⟨mid, w₁, next, w₂, hbefore, hhere, hafter⟩ := Resolve.steps_split hrun htoken
  obtain ⟨hk, rfl⟩ := List.getElem?_eq_some_iff.mp htoken
  have hlength : (c.tokens.take k).length = k := List.length_take_of_le (Nat.le_of_lt hk)
  have hname := hproper.names _ (List.getElem_mem hk)
  have hindex := hproper.numbered.index_eq hk
  rw [Nat.zero_add] at hindex
  obtain ⟨hwf₁, hmid, hreached⟩ := h.steps_before hproper (Nat.le_of_lt hk) hbefore
  have hat : t.At none 0 := rfl
  have hmade := (Resolve.ends_steps_tokenIndex h hat (hproper.numbered.take k)
    fun token hmem => hproper.names token (List.mem_of_mem_take hmem)).of_ok hbefore
  rw [hlength, Nat.zero_add, ← hindex] at hmade
  rw [← hindex] at hmid
  obtain ⟨hwf₂, he₂, -, hstop, hnext⟩ := (Resolve.ends_step hwf₁.toSound hwf₁ (.refl _) hmid
    hname).of_ok hhere
  obtain ⟨n, hn, hhow⟩ := (Resolve.ends_step_denotes hwf₁ hmid hname hmade).of_ok hhere
  rw [hindex] at hnext
  obtain ⟨hwf, he⟩ := hwf₂.steps_after hproper hk hnext hafter
  obtain ⟨-, hpath⟩ := hwf₂.reached_stop? (hreached.mono he₂) (he₂.at hmid) hstop
  rw [pathOf?_of_node hn, Option.some.injEq, ← List.take_succ_eq_append_getElem hk] at hpath
  refine ⟨n.effectiveType, ?_, hhow.imp_right ?_⟩
  · rw [htree]
    exact hwf₂.typeAt?_mono hwf he (hwf₂.typeAt?_of_node hn hpath)
  · rintro ⟨hheeds, hold⟩
    obtain ⟨id, m, hm, hsame⟩ := mem_portraits.mp hold
    have hpath' : m.path = c.normalPrefix k := (congrArg Portrait.path hsame).symm.trans hpath
    have htype : n.effectiveType = m.effectiveType := congrArg Portrait.effectiveType hsame
    exact ⟨hheeds, htype ▸ h.typeAt?_of_node hm hpath'⟩

/-- Types that are denoted by their names have no namesakes. -/
theorem not_meetsNamesake (hnamed : ∀ (k : Nat) (token : Token) (hint : String) (type : TypeRef),
      c.tokens[k]? = some token → token.hint = some hint →
      t.typeAt? c k = some type ∨ i.typeRef hint = .ok type → i.typeRef type.name = .ok type) :
    ¬t.MeetsNamesake i c := by
  rintro ⟨k, token, hint, type, htoken, hhint, htype, hheeds, hother⟩
  have hself := hnamed k token hint type htoken hhint (.inl htype)
  rcases hheeds hint hhint with rfl | ⟨named, hdenoted, hname⟩
  · exact hother hself
  · have hself' := hnamed k token hint named htoken hhint (.inr hdenoted)
    rw [hname, hself, Except.ok.injEq] at hself'
    rw [← hself'] at hdenoted
    exact hother hdenoted

/-- A chain that is resolved in a tree with any history honours its hints exactly if none of them
meets a namesake there.  If a hint does not name the type that it meets, the chain is not resolved,
and the tree stays. -/
theorem hintsHonoured_iff (side : Side) (rootType : TypeRef) (overrides : List (String × String))
    (calls : List Call) (i : Introspector) (text : String) (c : Chain)
    (hparse : Chain.parse text = .ok c) :
    (∀ leaf, (((fresh side rootType overrides).after calls).resolveText i text).outcome
        = .ok (c, leaf) →
      ((((fresh side rootType overrides).after calls).resolveText i text).tree.HintsHonoured i c
        ↔ ¬((fresh side rootType overrides).after calls).MeetsNamesake i c))
      ∧ ∀ k token type, c.tokens[k]? = some token →
        ((fresh side rootType overrides).after calls).typeAt? c k = some type →
        ¬Resolve.Heeds i token type →
        (∃ e, (((fresh side rootType overrides).after calls).resolveText i text).outcome = .error e)
          ∧ (((fresh side rootType overrides).after calls).resolveText i text).tree
            = (fresh side rootType overrides).after calls := by
  have h := (wellFormed_fresh side rootType overrides).after calls
  generalize (fresh side rootType overrides).after calls = t at h
  have hkept {k : Nat} {type : TypeRef} (htype : t.typeAt? c k = some type) :
      (t.resolveText i text).tree.typeAt? c k = some type := by
    rcases h.resolveText (i := i) text with ⟨e, -, htree⟩ | ⟨chain, leaf, -, -, hwf, he, -⟩
    · rw [htree]
      exact htype
    · exact h.typeAt?_mono hwf he htype
  refine ⟨fun leaf hok => ⟨?_, ?_⟩, ?_⟩
  · rintro hhonoured ⟨k, token, hint, type, htoken, hhint, htype, -, hother⟩
    obtain ⟨type', htype', hdenoted⟩ := hhonoured k token hint htoken hhint
    rw [hkept htype, Option.some.injEq] at htype'
    exact hother (htype' ▸ hdenoted)
  · intro hnone k token hint htoken hhint
    obtain ⟨type, htype, hdenotes | ⟨hheeds, hthere⟩⟩ := h.typeAt?_resolved hok htoken
    · exact ⟨type, htype, hdenotes hint hhint⟩
    · refine ⟨type, htype, ?_⟩
      by_contra hother
      exact hnone ⟨k, token, hint, type, htoken, hhint, hthere, hheeds, hother⟩
  · intro k token type htoken htype hunheeded
    cases hout : (t.resolveText i text).outcome with
    | error e => exact ⟨⟨e, rfl⟩, h.tree_eq_of_error hout⟩
    | ok found =>
      obtain ⟨chain, leaf⟩ := found
      obtain rfl : chain = c := Except.ok.inj ((resolveText_ok hout).1.symm.trans hparse)
      obtain ⟨type', htype', hhow⟩ := h.typeAt?_resolved hout htoken
      rw [hkept htype, Option.some.injEq] at htype'
      subst htype'
      exact absurd (hhow.elim Resolve.Denotes.heeds And.left) hunheeded

/-- A schema with an abstract field and a raw list. -/
def till : Schema where
  types :=
    [("Till", ⟨.object, [("payment", ⟨"Payment", .abstract, []⟩), ("rows", ⟨"List", .list, []⟩)]⟩),
     ("Payment", ⟨.abstract, []⟩),
     ("Card", ⟨.object, [("number", ⟨"String", .scalar, []⟩)]⟩),
     ("Wire", ⟨.object, [("iban", ⟨"String", .scalar, []⟩)]⟩)]

/-- A tree of the schema after some chains. -/
def till.after (texts : List String) : Tree :=
  (fresh .source ⟨"Till", .object, []⟩ []).after (texts.map (Call.resolve till.introspector))

/-- `payment(Card).number` as it is read. -/
def cardNumber : Chain where
  text := "payment(Card).number"
  tokens :=
    [⟨"payment(Card)", "payment", 0, ⟨0, 13⟩, .plain, some "Card"⟩,
     ⟨"number", "number", 1, ⟨14, 20⟩, .plain, none⟩]

/-- `payment(Wire).iban` as it is read. -/
def wireIban : Chain where
  text := "payment(Wire).iban"
  tokens :=
    [⟨"payment(Wire)", "payment", 0, ⟨0, 13⟩, .plain, some "Wire"⟩,
     ⟨"iban", "iban", 1, ⟨14, 18⟩, .plain, none⟩]

/-- `rows(List<String>)[*]` as it is read. -/
def rowsOfStrings : Chain where
  text := "rows(List<String>)[*]"
  tokens := [⟨"rows(List<String>)[*]", "rows", 0, ⟨0, 21⟩, .collection none none,
    some "List<String>"⟩]

/-- Declared types are denoted by their names: a hint that repeats the first one is honoured, and
one that names another type is an error. -/
theorem hintsHonoured_iff_till :
    ((till.after ["payment(Card).number"]).resolveText till.introspector
          "payment(Card).number").tree.HintsHonoured till.introspector cardNumber
      ∧ ∃ e, ((till.after ["payment(Card).number"]).resolveText till.introspector
          "payment(Wire).iban").outcome = .error e := by
  have hnamed : ¬(till.after ["payment(Card).number"]).MeetsNamesake till.introspector
      cardNumber := by
    refine not_meetsNamesake fun k token hint type htoken hhint hcase => ?_
    have hk : k < 2 := (List.getElem?_eq_some_iff.mp htoken).1
    obtain rfl | rfl : k = 0 ∨ k = 1 := by omega
    · obtain rfl := Option.some.inj htoken
      obtain rfl := Option.some.inj hhint
      have hthere : (till.after ["payment(Card).number"]).typeAt? cardNumber 0
          = some ⟨"Card", .object, []⟩ := by decide +kernel
      have hdenoted : till.introspector.typeRef "Card" = .ok ⟨"Card", .object, []⟩ := by
        decide +kernel
      rw [hthere, hdenoted, Option.some.injEq, Except.ok.injEq, or_self] at hcase
      rw [← hcase]
      exact hdenoted
    · obtain rfl := Option.some.inj htoken
      cases hhint
  refine ⟨?_, ?_⟩
  · have hok : ((till.after ["payment(Card).number"]).resolveText till.introspector
        "payment(Card).number").outcome = .ok (cardNumber, 1) := by decide +kernel
    exact ((hintsHonoured_iff .source ⟨"Till", .object, []⟩ []
      [.resolve till.introspector "payment(Card).number"] till.introspector "payment(Card).number"
      cardNumber (by decide +kernel)).1 1 hok).mpr hnamed
  · have hunheeded : ¬Resolve.Heeds till.introspector
        ⟨"payment(Wire)", "payment", 0, ⟨0, 13⟩, .plain, some "Wire"⟩ ⟨"Card", .object, []⟩ := by
      intro hheeds
      have hdenoted : till.introspector.typeRef "Wire" = .ok ⟨"Wire", .object, []⟩ := by
        decide +kernel
      rcases hheeds "Wire" rfl with hname | ⟨named, hwire, hname⟩
      · exact absurd hname (by decide)
      · rw [hdenoted, Except.ok.injEq] at hwire
        rw [← hwire] at hname
        exact absurd hname (by decide)
    exact ((hintsHonoured_iff .source ⟨"Till", .object, []⟩ []
      [.resolve till.introspector "payment(Card).number"] till.introspector "payment(Wire).iban"
      wireIban (by decide +kernel)).2 0 _ ⟨"Card", .object, []⟩ rfl (by decide +kernel)
      hunheeded).1

/-- Lists of different elements are namesakes: the second hint is let pass at a member that keeps
the type which the first one denotes. -/
theorem not_hintsHonoured_till :
    ((till.after ["rows(List<Int>)[*]"]).resolveText till.introspector
          "rows(List<String>)[*]").outcome = .ok (rowsOfStrings, 1)
      ∧ ¬((till.after ["rows(List<Int>)[*]"]).resolveText till.introspector
          "rows(List<String>)[*]").tree.HintsHonoured till.introspector rowsOfStrings := by
  refine ⟨by decide +kernel, fun hhonoured => ?_⟩
  obtain ⟨type, htype, hdenoted⟩ := hhonoured 0 _ "List<String>" rfl rfl
  have hkept : ((till.after ["rows(List<Int>)[*]"]).resolveText till.introspector
      "rows(List<String>)[*]").tree.typeAt? rowsOfStrings 0
        = some ⟨"List", .list, [⟨"Int", .scalar, []⟩]⟩ := by decide +kernel
  have hstrings : till.introspector.typeRef "List<String>"
      = .ok ⟨"List", .list, [⟨"String", .scalar, []⟩]⟩ := by decide +kernel
  rw [hkept, Option.some.injEq] at htype
  rw [hstrings, ← htype] at hdenoted
  simp at hdenoted

end Tree
end ChainMapping
