import ChainMapping.Proofs.Chain.Nesting
import ChainMapping.Proofs.Ending
import ChainMapping.Proofs.Text.Trimming

/-!
# The form of a segment

A segment is written as a name and up to three groups after it: a hint, a bracket and a marker, in
this order.  `Form` holds these parts and `Form.Valid` says which of them make a segment.  Reading
is shown to find the parts again, and to accept exactly the valid forms among the texts whose
brackets nest.
-/

namespace ChainMapping

/-- What stands between the angle brackets of a marker. -/
def MapSide.letter : MapSide → List Char
  | key => ['K']
  | value => ['V']

namespace Chain

/-- A text between a bracket and the one that closes it. -/
structure Group where
  opener : Char
  body : List Char
  deriving DecidableEq, Repr

def Group.written (g : Group) : List Char := g.opener :: (g.body ++ [closingOf g.opener])

/-- The text of a group does not close it. -/
structure Group.Ended (g : Group) : Prop where
  opening : isOpening g.opener = true
  notMem : closingOf g.opener ∉ g.body

/-- The parts that a segment is written with. -/
structure Form where
  name : List Char
  hint : Option (List Char) := none
  bracket : Option (List Char) := none
  marker : Option MapSide := none
  deriving DecidableEq, Repr

def Form.groups (f : Form) : List Group :=
  (f.hint.map (Group.mk '(')).toList ++ (f.bracket.map (Group.mk '[')).toList
    ++ (f.marker.map fun side => Group.mk '<' side.letter).toList

/-- `name`, then `(hint)`, `[body]` and `<K>` or `<V>`, as far as they are there. -/
def Form.written (f : Form) : List Char := f.name ++ f.groups.flatMap Group.written

/-- A letter or an underscore, then letters, digits and underscores, 255 bytes at most. -/
structure IsFieldName (name : List Char) : Prop where
  first : ∃ c rest, name = c :: rest ∧ (Text.isLetter c = true ∨ c = '_')
  chars : ∀ c ∈ name, Text.isLetter c = true ∨ Text.isDigit c = true ∨ c = '_'
  length_le : Text.byteLength name ≤ 255

/-- A text that can stand between round brackets. -/
structure IsHint (hint : List Char) : Prop where
  notBlank : Text.isAllBlank hint = false
  noRound : '(' ∉ hint ∧ ')' ∉ hint
  nested : Nested hint

def IsAnchor (text : List Char) : Prop := text = ['^'] ∨ text = ['^', '*'] ∨ text = ['*', '^']

/-- A star, an index or an anchor. -/
def IsElementMark (text : List Char) : Prop :=
  text = ['*'] ∨ (text ≠ [] ∧ ∀ c ∈ text, Text.isDigit c = true) ∨ IsAnchor text

/-- The inside of a bracket that addresses the elements of a collection. -/
def IsCollectionBody (body : List Char) : Prop := IsElementMark (Text.trim body)

/-- One comma between two sides that are not blank.  The first side with an anchor sign is nothing
but an anchor. -/
structure IsPair (body left right : List Char) : Prop where
  written : body = left ++ ',' :: right
  comma : ',' ∉ left ∧ ',' ∉ right
  notBlank : Text.isAllBlank left = false ∧ Text.isAllBlank right = false
  leftAnchor : '^' ∈ left → IsAnchor (Text.trim left)
  rightAnchor : '^' ∉ left → '^' ∈ right → IsAnchor (Text.trim right)

/-- The inside of a bracket that addresses the entries of a map. -/
structure IsMapBody (body : List Char) : Prop where
  noSquare : '[' ∉ body ∧ ']' ∉ body
  nested : Nested body
  pair : ∃ left right, IsPair body left right

/-- The parts of a segment. -/
structure Form.Valid (f : Form) : Prop where
  name : IsFieldName f.name
  hint : ∀ hint, f.hint = some hint → IsHint hint
  bracket : ∀ body, f.bracket = some body →
    (IsCollectionBody body ∧ f.marker = none) ∨ IsMapBody body

variable {chain : String} {segment : Segment} {offset : Nat} {parts parts' : Parts}
  {text : List Char} {f : Form}

theorem closingOf_angle : closingOf '<' = '>' := rfl

theorem Group.written_append (g : Group) (rest : List Char) :
    g.written ++ rest = g.opener :: (g.body ++ closingOf g.opener :: rest) := by
  simp [Group.written]

/-! ## Groups and nesting -/

/-- After groups that end where their brackets are first closed, no bracket is closed that was open
before them; if none is left open by them, each of their texts nests. -/
theorem openedBy_groups {opened opened' : List Char} {groups : List Group}
    (hended : ∀ g ∈ groups, g.Ended)
    (h : openedBy anywhere opened (groups.flatMap Group.written) = some opened') :
    ∃ more, opened' = more ++ opened ∧ (more = [] → ∀ g ∈ groups, Nested g.body) := by
  induction groups generalizing opened with
  | nil =>
    rw [List.flatMap_nil, openedBy_nil] at h
    exact ⟨[], (Option.some.inj h).symm, fun _ g hg => absurd hg List.not_mem_nil⟩
  | cons g rest ih =>
    obtain ⟨hopening, hnotMem⟩ := hended g List.mem_cons_self
    have hrest : ∀ g' ∈ rest, g'.Ended := fun g' hg' => hended g' (List.mem_cons_of_mem _ hg')
    have hbody : openedBy anywhere ([] ++ g.opener :: opened) g.body
        = (openedBy anywhere [] g.body).map (· ++ g.opener :: opened) :=
      openedBy_inside hnotMem opened
    rw [List.flatMap_cons, Group.written_append, openedBy_cons, openedAfter_opening hopening,
      Option.bind_some, openedBy_append, ← List.nil_append (g.opener :: opened), hbody] at h
    cases hinner : openedBy anywhere [] g.body with
    | none => simp [hinner] at h
    | some inner =>
      rw [hinner, Option.map_some, Option.bind_some, openedBy_cons] at h
      obtain ⟨next, hnext, hmore⟩ := Option.bind_eq_some_iff.mp h
      obtain ⟨more, rfl, hnested⟩ := ih hrest hmore
      cases inner with
      | nil =>
        rw [List.nil_append, openedAfter_closingOf] at hnext
        rw [← Option.some.inj hnext]
        refine ⟨more, rfl, fun hnil g' hg' => ?_⟩
        rcases List.mem_cons.mp hg' with rfl | hg'
        · exact nested_iff.mpr hinner
        · exact hnested hnil g' hg'
      | cons bracket outer =>
        -- The group ended inside of itself, so its own bracket is still open.
        obtain ⟨-, rfl⟩ := openedAfter_cons_closingOf hnext
        exact ⟨more ++ outer ++ [g.opener], by simp, fun hnil => by simp at hnil⟩

theorem nested_of_groups {groups : List Group} (hended : ∀ g ∈ groups, g.Ended)
    (h : openedBy anywhere [] (groups.flatMap Group.written) = some []) :
    ∀ g ∈ groups, Nested g.body := by
  obtain ⟨more, hmore, hnested⟩ := openedBy_groups hended h
  rw [List.append_nil] at hmore
  exact hnested hmore.symm

/-! ## Reading groups -/

theorem scanParts_unclosed {p : Pending} (h : closingOf p.opener ∉ text) :
    scanParts chain segment offset (some p) parts text
      = .error (.unbalancedBracket chain p.opener p.start) := by
  induction text generalizing offset p with
  | nil => rfl
  | cons c rest ih =>
    have hc : c ≠ closingOf p.opener := fun heq => h (heq ▸ List.mem_cons_self)
    rw [scanParts]
    simp only [hc, if_false]
    exact ih fun hmem => h (List.mem_cons_of_mem _ hmem)

theorem scanParts_pending {p : Pending} {body : List Char} (h : closingOf p.opener ∉ body)
    (rest : List Char) {stop : Nat}
    (hstop : stop = offset + Text.byteLength body + (closingOf p.opener).utf8Size) :
    scanParts chain segment offset (some p) parts (body ++ closingOf p.opener :: rest)
      = parts.add chain segment p.opener (p.body.reverse ++ body) ⟨p.start, stop⟩
        >>= fun parts => scanParts chain segment stop none parts rest := by
  induction body generalizing offset p with
  | nil =>
    rw [List.nil_append, scanParts, List.append_nil, hstop]
    simp only [if_true]
    rfl
  | cons c more ih =>
    have hc : c ≠ closingOf p.opener := fun heq => h (heq ▸ List.mem_cons_self)
    have hmore : closingOf p.opener ∉ more := fun hmem => h (List.mem_cons_of_mem _ hmem)
    rw [List.cons_append, scanParts]
    simp only [hc, if_false]
    rw [ih (p := { p with body := c :: p.body }) hmore, List.reverse_cons, List.append_assoc]
    · rfl
    · show stop = offset + c.utf8Size + Text.byteLength more + (closingOf p.opener).utf8Size
      rw [hstop, Text.byteLength]
      omega

/-- Reading goes on after a group with the parts that took it in. -/
theorem scanParts_group {g : Group} (h : g.Ended) (rest : List Char) : ∃ span stop,
    scanParts chain segment offset none parts (g.written ++ rest)
      = parts.add chain segment g.opener g.body span
        >>= fun parts => scanParts chain segment stop none parts rest := by
  rw [Group.written_append, scanParts]
  simp only [h.opening, if_true]
  exact ⟨_, _, scanParts_pending (p := ⟨g.opener, offset, []⟩) h.notMem rest rfl⟩

theorem scanParts_cases (h : scanParts chain segment offset none parts text = .ok parts') :
    (text = [] ∧ parts' = parts)
      ∨ ∃ (g : Group) (rest : List Char) (span : Span) (stop : Nat) (mid : Parts),
        g.Ended ∧ text = g.written ++ rest
        ∧ parts.add chain segment g.opener g.body span = .ok mid
        ∧ scanParts chain segment stop none mid rest = .ok parts' := by
  cases text with
  | nil =>
    rw [scanParts] at h
    exact .inl ⟨rfl, (Except.ok.inj h).symm⟩
  | cons c rest =>
    by_cases hopening : isOpening c = true
    · by_cases hclosed : closingOf c ∈ rest
      · obtain ⟨body, more, rfl, hnotMem⟩ := List.eq_append_cons_of_mem hclosed
        have hended : Group.Ended ⟨c, body⟩ := ⟨hopening, hnotMem⟩
        have hwritten : c :: (body ++ closingOf c :: more) = (Group.mk c body).written ++ more :=
          (Group.written_append ⟨c, body⟩ more).symm
        obtain ⟨span, stop, hscan⟩ := @scanParts_group chain segment offset parts _ hended more
        rw [hwritten, hscan] at h
        obtain ⟨mid, hadd, hrest⟩ := bind_eq_ok h
        exact .inr ⟨⟨c, body⟩, more, span, stop, mid, hended, hwritten, hadd, hrest⟩
      · rw [scanParts] at h
        simp only [hopening, if_true] at h
        rw [scanParts_unclosed hclosed] at h
        simp at h
    · rw [scanParts] at h
      simp only [hopening, Bool.false_eq_true, if_false] at h
      split at h <;> simp at h

/-! ## What the parts hold -/

/-- Parts that took in a group, by its kind. -/
inductive Added (parts : Parts) (span : Span) : Group → Parts → Prop where
  | hint {body : List Char} (fresh : parts.hint = none) (noBracket : parts.bracket = none)
      (noMarker : parts.marker = none) (notBlank : Text.isAllBlank body = false) :
      Added parts span ⟨'(', body⟩ { parts with hint := some (String.ofList (Text.trim body)) }
  | bracket {body : List Char} (fresh : parts.bracket = none) (noMarker : parts.marker = none) :
      Added parts span ⟨'[', body⟩ { parts with bracket := some (body, span) }
  | marker {side : MapSide} (fresh : parts.marker = none) :
      Added parts span ⟨'<', side.letter⟩ { parts with marker := some (side, span) }

theorem ofMarker?_eq_some_iff {body : List Char} {side : MapSide} :
    MapSide.ofMarker? (String.ofList ('<' :: body ++ ['>'])) = some side ↔ body = side.letter := by
  have hmarker (s : MapSide) :
      String.ofList ('<' :: body ++ ['>']) = s.marker ↔ body = s.letter := by
    rw [← String.toList_inj, String.toList_ofList]
    cases s <;> simp [MapSide.marker, MapSide.letter, List.append_eq_cons_iff]
  unfold MapSide.ofMarker?
  simp only [hmarker]
  cases side <;> simp [MapSide.letter] <;> grind

theorem add_eq_ok_iff {g : Group} (h : isOpening g.opener = true) {span : Span} :
    parts.add chain segment g.opener g.body span = .ok parts' ↔ Added parts span g parts' := by
  obtain ⟨opener, body⟩ := g
  have hempty : (Text.trim body).isEmpty = Text.isAllBlank body := by
    rw [Bool.eq_iff_iff, List.isEmpty_iff]
    exact Text.trim_eq_nil_iff
  simp only [isOpening, Bool.or_eq_true, beq_iff_eq] at h
  constructor
  · intro hadd
    rcases h with (rfl | rfl) | rfl
    · simp only [Parts.add, Char.reduceEq, if_false, if_true] at hadd
      split at hadd
      · simp at hadd
      · next hbracket =>
        split at hadd
        · simp at hadd
        · next hmarker =>
          rw [← Except.ok.inj hadd]
          exact .bracket (by simpa using hbracket) (by simpa using hmarker)
    · simp only [Parts.add, Char.reduceEq, if_false, closingOf_angle] at hadd
      split at hadd
      · simp at hadd
      · next side hside =>
        split at hadd
        · simp at hadd
        · next hmarker =>
          rw [← Except.ok.inj hadd, ofMarker?_eq_some_iff.mp hside]
          exact .marker (by simpa using hmarker)
    · simp only [Parts.add, if_true, hempty] at hadd
      split at hadd
      · simp at hadd
      · next hfresh =>
        simp only [Bool.or_eq_true, not_or, Bool.not_eq_true, Option.isSome_eq_false_iff,
          Option.isNone_iff_eq_none] at hfresh
        split at hadd
        · simp at hadd
        · next hblank =>
          rw [← Except.ok.inj hadd]
          exact .hint hfresh.1.1 hfresh.1.2 hfresh.2 (by simpa using hblank)
  · intro hadded
    cases hadded with
    | hint fresh noBracket noMarker notBlank =>
      simp [Parts.add, fresh, noBracket, noMarker, hempty, notBlank]
    | bracket fresh noMarker => simp [Parts.add, fresh, noMarker]
    | @marker side fresh =>
      have hside := ofMarker?_eq_some_iff.mpr (rfl : side.letter = side.letter)
      simp only [Parts.add, Char.reduceEq, if_false, closingOf_angle, hside, fresh,
        Option.isSome_none, Bool.false_eq_true]

/-- Parts that hold what the groups of a form say. -/
structure Parts.Holds (parts : Parts) (f : Form) : Prop where
  hint : parts.hint = f.hint.map fun hint => String.ofList (Text.trim hint)
  bracket : parts.bracket.map Prod.fst = f.bracket
  marker : parts.marker.map Prod.fst = f.marker
  notBlank : ∀ hint, f.hint = some hint → Text.isAllBlank hint = false

theorem holds_empty (name : List Char) : Parts.Holds {} ⟨name, none, none, none⟩ :=
  ⟨rfl, rfl, rfl, fun _ h => by simp at h⟩

/-- A group that is taken in is the next group of the form. -/
theorem Added.holds {g : Group} {span : Span} (h : Added parts span g parts')
    (hf : parts.Holds f) :
    ∃ f' : Form, f'.name = f.name ∧ f'.groups = f.groups ++ [g] ∧ parts'.Holds f' := by
  have hbracket := hf.bracket
  have hmarker := hf.marker
  have hhint := hf.hint
  cases h with
  | @hint body fresh noBracket noMarker notBlank =>
    rw [fresh] at hhint
    rw [noBracket] at hbracket
    rw [noMarker] at hmarker
    have hnone : f.hint = none := by simpa using hhint.symm
    refine ⟨{ f with hint := some body }, rfl, ?_, rfl, hf.bracket, hf.marker, ?_⟩
    · simp [Form.groups, hnone, ← hbracket, ← hmarker]
    · intro hint heq
      rw [← Option.some.inj heq]
      exact notBlank
  | @bracket body fresh noMarker =>
    rw [fresh] at hbracket
    rw [noMarker] at hmarker
    refine ⟨{ f with bracket := some body }, rfl, ?_, hf.hint, rfl, hf.marker, hf.notBlank⟩
    simp [Form.groups, ← hbracket, ← hmarker]
  | @marker side fresh =>
    rw [fresh] at hmarker
    refine ⟨{ f with marker := some side }, rfl, ?_, hf.hint, hf.bracket, rfl, hf.notBlank⟩
    simp [Form.groups, ← hmarker]

/-- A text that reads as parts is written as the groups of a form. -/
theorem holds_of_scanParts (h : scanParts chain segment offset none parts text = .ok parts')
    (hf : parts.Holds f) : ∃ (f' : Form) (groups : List Group),
      f'.name = f.name ∧ f'.groups = f.groups ++ groups ∧ (∀ g ∈ groups, g.Ended)
        ∧ text = groups.flatMap Group.written ∧ parts'.Holds f' := by
  induction hn : text.length using Nat.strongRecOn generalizing text offset parts f with
  | ind n ih =>
    rcases scanParts_cases h with ⟨rfl, rfl⟩ | ⟨g, rest, span, stop, mid, hended, rfl, hadd, hrest⟩
    · exact ⟨f, [], rfl, by simp, fun g hg => absurd hg List.not_mem_nil, rfl, hf⟩
    · obtain ⟨f₁, hname, hgroups, hf₁⟩ := ((add_eq_ok_iff hended.opening).mp hadd).holds hf
      have hlt : rest.length < n := by
        rw [← hn, Group.written_append, List.length_cons, List.length_append, List.length_cons]
        omega
      obtain ⟨f', groups, hname', hgroups', hall, rfl, hf'⟩ := ih _ hlt hrest hf₁ rfl
      refine ⟨f', g :: groups, hname'.trans hname, ?_, ?_, rfl, hf'⟩
      · rw [hgroups', hgroups, List.append_assoc, List.singleton_append]
      · intro g' hg'
        rcases List.mem_cons.mp hg' with rfl | hg'
        · exact hended
        · exact hall g' hg'

/-- Reading the parts gives some that hold the form. -/
def Reads (chain : String) (segment : Segment) (offset : Nat) (parts : Parts) (text : List Char)
    (f : Form) : Prop :=
  ∃ parts', scanParts chain segment offset none parts text = .ok parts' ∧ parts'.Holds f

theorem reads_nil (h : parts.Holds f) : Reads chain segment offset parts [] f :=
  ⟨parts, by rw [scanParts], h⟩

theorem reads_group {g : Group} (hended : g.Ended) {f₁ : Form} {rest : List Char}
    (hadd : ∀ span, ∃ mid, Added parts span g mid ∧ mid.Holds f₁)
    (hrest : ∀ mid stop, mid.Holds f₁ → Reads chain segment stop mid rest f) :
    Reads chain segment offset parts (g.written ++ rest) f := by
  obtain ⟨span, stop, hscan⟩ := @scanParts_group chain segment offset parts g hended rest
  obtain ⟨mid, hadded, hmid⟩ := hadd span
  obtain ⟨parts', hok, hparts'⟩ := hrest mid stop hmid
  refine ⟨parts', ?_, hparts'⟩
  rw [hscan, (add_eq_ok_iff hended.opening).mpr hadded]
  exact hok

theorem reads_marker (h : parts.Holds { f with marker := none }) :
    Reads chain segment offset parts
      ((f.marker.map fun side => Group.mk '<' side.letter).toList.flatMap Group.written) f := by
  cases hmarker : f.marker with
  | none =>
    rw [← hmarker] at h
    exact reads_nil h
  | some side =>
    have hended : Group.Ended ⟨'<', side.letter⟩ := ⟨rfl, by cases side <;> decide⟩
    have hfresh : parts.marker = none := by simpa using h.marker
    have hadd (span : Span) : ∃ mid, Added parts span ⟨'<', side.letter⟩ mid ∧ mid.Holds f :=
      ⟨_, .marker hfresh, h.hint, h.bracket, hmarker.symm, h.notBlank⟩
    exact reads_group hended hadd fun mid stop hmid => reads_nil hmid

theorem reads_bracket (h : parts.Holds { f with bracket := none, marker := none })
    (hended : ∀ body, f.bracket = some body → ']' ∉ body) :
    Reads chain segment offset parts
      ((f.bracket.map (Group.mk '[')).toList.flatMap Group.written
        ++ (f.marker.map fun side => Group.mk '<' side.letter).toList.flatMap Group.written) f := by
  cases hbracket : f.bracket with
  | none =>
    rw [← hbracket] at h
    exact reads_marker h
  | some body =>
    have hbracketNone : parts.bracket = none := by simpa using h.bracket
    have hmarkerNone : parts.marker = none := by simpa using h.marker
    have hadd (span : Span) :
        ∃ mid, Added parts span ⟨'[', body⟩ mid ∧ mid.Holds { f with marker := none } :=
      ⟨_, .bracket hbracketNone hmarkerNone, h.hint, hbracket.symm, h.marker, h.notBlank⟩
    have hgroup := @reads_group chain segment offset parts f ⟨'[', body⟩
      ⟨rfl, hended body hbracket⟩ _ _ hadd fun mid stop hmid => reads_marker hmid
    simpa using hgroup

/-- The groups of a form read as parts that hold it. -/
theorem reads_groups (hhint : ∀ hint, f.hint = some hint → ')' ∉ hint)
    (hblank : ∀ hint, f.hint = some hint → Text.isAllBlank hint = false)
    (hbracket : ∀ body, f.bracket = some body → ']' ∉ body) :
    Reads chain segment offset {} (f.groups.flatMap Group.written) f := by
  rw [Form.groups, List.append_assoc, List.flatMap_append, List.flatMap_append]
  cases hcase : f.hint with
  | none =>
    have hempty : Parts.Holds {} { f with bracket := none, marker := none } :=
      ⟨by rw [hcase]; rfl, rfl, rfl, hblank⟩
    exact reads_bracket hempty hbracket
  | some hint =>
    have hadd (span : Span) : ∃ mid, Added {} span ⟨'(', hint⟩ mid
        ∧ mid.Holds { f with bracket := none, marker := none } := by
      refine ⟨_, .hint rfl rfl rfl (hblank hint hcase), ?_, rfl, rfl, hblank⟩
      rw [hcase]
      rfl
    have hgroup := @reads_group chain segment offset {} f ⟨'(', hint⟩
      ⟨rfl, hhint hint hcase⟩ _ _ hadd fun mid stop hmid => reads_bracket hmid hbracket
    simpa using hgroup

end Chain
end ChainMapping
