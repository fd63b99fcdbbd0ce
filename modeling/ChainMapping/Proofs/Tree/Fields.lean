import ChainMapping.Proofs.Tree.Histories
import ChainMapping.Proofs.Tree.Making
import ChainMapping.Proofs.Value.Conforming

/-!
# The fields of nodes

The field of a node is what some source of type information answered for a name: the name of the
segment that the node was made for, or that its container was made for if it is a member.  A source
that binds names answers with a field of that name, so that the two names of a node agree.
-/

namespace ChainMapping

/-- A field that is bound to a name has that name. -/
def Introspector.Binds (i : Introspector) : Prop :=
  ∀ owner name field, i.fieldType owner name = .ok field → field.name = name

theorem Schema.binds_introspector (schema : Schema) : schema.introspector.Binds := by
  intro owner name field h
  exact (Schema.fieldType_eq_ok h).2.1

/-- What is answered when a name is looked up. -/
abbrev Answered := String → FieldType → Prop

namespace Answered

variable {answered : Answered} {ps : List Portrait}

/-- Every node carries a field that was answered: for its own name, or for that of the node above if
it is a member. -/
def Covers (answered : Answered) (ps : List Portrait) : Prop :=
  ∀ p ∈ ps, ∃ up ∈ ps, up.descriptor.isMember = false ∧ answered up.token up.field
    ∧ p.field = up.field
    ∧ (p = up ∨ p.descriptor.isMember = true ∧ p.parent = some up.path)

theorem covers_nil (answered : Answered) : answered.Covers [] :=
  fun _ hp => absurd hp List.not_mem_nil

/-- What a segment makes carries the field that was answered for its name. -/
theorem Covers.append {b : Basis} {chain : String} {token : Token} {parent : Option Portrait}
    {d : Draft} (h : answered.Covers ps)
    (hsource : ∀ owner name field, b.source.fieldType owner name = .ok field →
      answered name field)
    (hd : b.draft chain token parent = .ok d) : answered.Covers (ps ++ d.all) := by
  obtain ⟨field, concrete, hdrafted⟩ := Basis.drafted_of_ok hd
  have hanswer : answered token.name field := by
    obtain ⟨owner, -, hfield⟩ := bind_eq_ok hdrafted.lookup
    exact hsource _ _ _ (mapError_eq_ok hfield)
  have hnew : ∀ p ∈ d.all, p.field = d.field.field
      ∧ (p = d.field ∨ p.descriptor.isMember = true ∧ p.parent = some d.field.path) := by
    intro p hp
    rcases List.mem_cons.mp hp with rfl | hmember
    · exact ⟨rfl, .inl rfl⟩
    · obtain ⟨key, role, hint, element, hrole, hm⟩ :=
        Basis.exists_member_of_mem hdrafted.members_eq hmember
      obtain ⟨types, -, rfl⟩ := map_eq_ok hm
      exact ⟨rfl, .inr ⟨hrole, rfl⟩⟩
  intro p hp
  rcases List.mem_append.mp hp with hold | hin
  · obtain ⟨up, hup, hplace⟩ := h p hold
    exact ⟨up, List.mem_append_left _ hup, hplace⟩
  · obtain ⟨hfield, hplace⟩ := hnew p hin
    refine ⟨d.field, List.mem_append_right _ List.mem_cons_self, ?_, ?_, hfield, hplace⟩
    · rw [hdrafted.field_eq]
      exact Resolve.isMember_ofKind _
    · rw [hdrafted.field_eq]
      exact hanswer

end Answered

namespace Resolve

variable {answered : Answered} {i : Introspector} {chain : String} {w : Work}

theorem ends_steps_covers {tokens : List Token} {current : Option Nat} {index : Nat}
    (h : w.tree.WellFormed) (hcovers : answered.Covers w.tree.portraits)
    (hsource : ∀ owner name field, i.fieldType owner name = .ok field → answered name field)
    (hat : w.tree.At current index) (hnumbered : Chain.NumberedFrom index tokens)
    (hnames : ∀ token ∈ tokens, Chain.IsName token.name) :
    Ends (steps i chain current tokens) w (fun _ w' => answered.Covers w'.tree.portraits)
      (fun _ _ => True) := by
  induction tokens generalizing w current index with
  | nil => exact Ends.pure hcovers
  | cons token rest ih =>
    obtain ⟨rfl, hrest⟩ := hnumbered
    have hname := hnames token List.mem_cons_self
    have hnames' : ∀ token ∈ rest, Chain.IsName token.name :=
      fun token hmem => hnames token (List.mem_cons_of_mem _ hmem)
    refine Ends.bind (Ends.mono (Ends.and (ends_step h.toSound h (.refl _) hat hname)
      (drafts_step h hat hname)) (fun _ _ hok => hok) (fun _ _ _ => trivial)) ?_
    rintro next w₁ ⟨⟨hwf, -, -, -, hnext⟩, ⟨hsame, -⟩ | ⟨-, d, hd, hportraits⟩⟩
    · exact ih hwf (hsame ▸ hcovers) hnext hrest hnames'
    · have hcovers₁ : answered.Covers w₁.tree.portraits := by
        rw [hportraits]
        exact hcovers.append hsource hd
      exact ih hwf hcovers₁ hnext hrest hnames'

end Resolve

namespace Tree

variable {t : Tree} {answered : Answered}

/-- The name of the segment that a node belongs to. -/
def segmentName? (t : Tree) (id : Nat) : Option String := do
  let n ← t.node? id
  if n.descriptor.isMember then
    let up ← n.parent.bind t.node?
    return up.token
  else return n.token

theorem segmentName?_of_field {id : Nat} {n : Node} (hn : t.node? id = some n)
    (hrole : n.descriptor.isMember = false) : t.segmentName? id = some n.token := by
  simp [segmentName?, hn, hrole]

theorem segmentName?_of_member {id p : Nat} {n up : Node} (hn : t.node? id = some n)
    (hrole : n.descriptor.isMember = true) (hparent : n.parent = some p)
    (hup : t.node? p = some up) : t.segmentName? id = some up.token := by
  simp [segmentName?, hn, hrole, hparent, hup]

theorem WellFormed.answered_of_covers (h : t.WellFormed) (hcovers : answered.Covers t.portraits)
    {id : Nat} {n : Node} (hn : t.node? id = some n) :
    ∃ name, t.segmentName? id = some name ∧ answered name n.field := by
  obtain ⟨up, hup, hrole, hanswer, hfield, hplace⟩ := hcovers _ (portraitOf_mem hn)
  have hfield' : n.field = up.field := hfield
  obtain ⟨q, m, hm, rfl⟩ := mem_portraits.mp hup
  rw [hfield']
  refine ⟨m.token, ?_, hanswer⟩
  rcases hplace with hself | ⟨hmember, hparent⟩
  · have hid : id = q := h.path_inj hn hm (congrArg Portrait.path hself)
    subst hid
    exact segmentName?_of_field hm hrole
  · obtain ⟨p, hp, hpath⟩ := Option.bind_eq_some_iff.mp hparent
    obtain ⟨m', hm', hpath'⟩ := Option.map_eq_some_iff.mp hpath
    have hid : p = q := h.path_inj hm' hm hpath'
    subst hid
    exact segmentName?_of_member hn hmember hp hm

theorem WellFormed.covers_apply (h : t.WellFormed) (hcovers : answered.Covers t.portraits)
    (call : Call)
    (hsource : ∀ source text, call = .resolve source text → ∀ owner name field,
      source.fieldType owner name = .ok field → answered name field) :
    answered.Covers (t.apply call).portraits := by
  cases call with
  | override path concrete => exact hcovers
  | resolve source text =>
    show answered.Covers (t.resolveText source text).tree.portraits
    cases hout : (t.resolveText source text).outcome with
    | error e => rwa [h.tree_eq_of_error hout]
    | ok found =>
      obtain ⟨hparse, -, w, hrun, htree⟩ := resolveText_ok hout
      have hproper := (Chain.proper_of_parse hparse).2
      have hends : Ends (Resolve.steps source found.1.text none found.1.tokens) { tree := t } _ _ :=
        Resolve.ends_steps_covers h hcovers (hsource source text rfl)
          (show t.At none 0 from rfl) hproper.numbered hproper.names
      rw [htree]
      exact hends.of_ok hrun

/-- Some source among calls answers with a field when it is asked for a name. -/
def answeredIn (calls : List Call) : Answered := fun name field =>
  ∃ source text owner, Call.resolve source text ∈ calls ∧ source.fieldType owner name = .ok field

theorem WellFormed.covers_after (h : t.WellFormed) {calls : List Call}
    (hcovers : answered.Covers t.portraits)
    (hsource : ∀ name field, answeredIn calls name field → answered name field) :
    answered.Covers (t.after calls).portraits := by
  induction calls generalizing t with
  | nil => exact hcovers
  | cons call rest ih =>
    refine ih (h.apply call) (h.covers_apply hcovers call ?_) ?_
    · rintro source text rfl owner name field hfield
      exact hsource name field ⟨source, text, owner, List.mem_cons_self, hfield⟩
    · rintro name field ⟨source, text, owner, hmem, hfield⟩
      exact hsource name field ⟨source, text, owner, List.mem_cons_of_mem _ hmem, hfield⟩

/-- In every tree, the field of a node was answered for the name of its segment. -/
theorem answeredIn_after (side : Side) (rootType : TypeRef) (overrides : List (String × String))
    (calls : List Call) {id : Nat} {n : Node}
    (hn : ((fresh side rootType overrides).after calls).node? id = some n) :
    ∃ name, ((fresh side rootType overrides).after calls).segmentName? id = some name
      ∧ answeredIn calls name n.field := by
  have hfresh := wellFormed_fresh side rootType overrides
  refine (hfresh.after calls).answered_of_covers ?_ hn
  exact hfresh.covers_after (Answered.covers_nil _) fun _ _ hanswer => hanswer

end Tree
end ChainMapping
