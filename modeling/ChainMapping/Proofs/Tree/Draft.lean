import ChainMapping.Proofs.Tree.NormalPaths

/-!
# What a segment makes

The nodes that a segment makes are decided by the source of type information, the root type, the
overrides and the node that the segment is looked up on.  `Basis.draft` computes them from these
alone, or the error that comes instead.

A draft has the paths that the notation of its segment says, and the type that a hint names.
Without a hint the segment does not show in it: every segment of the same name below the same node
has the same draft, if its notation fits.
-/

namespace ChainMapping

/-- What the nodes of a tree are made from. -/
structure Basis where
  source : Introspector
  root : TypeRef
  overrides : List (String × String)
  side : Side

/-- Which of the types that a container holds a segment addresses. -/
def Shape.position (shape : Shape) : Nat := if shape.side? = some .value then 1 else 0

/-- The node of a segment and the members that come with it. -/
structure Draft where
  field : Portrait
  members : List Portrait

namespace Draft

def all (d : Draft) : List Portrait := d.field :: d.members

/-- Where a segment leads: to the member that it addresses, or to the node itself. -/
def stop (d : Draft) (token : Token) : Portrait :=
  (d.members.find? (·.path == d.field.path ++ token.shape.suffix)).getD d.field

theorem stop_mem (d : Draft) (token : Token) : d.stop token ∈ d.all := by
  unfold stop all
  cases hfind : d.members.find? (·.path == d.field.path ++ token.shape.suffix) with
  | some m => exact List.mem_cons_of_mem _ (List.mem_of_find?_eq_some hfind)
  | none => exact List.mem_cons_self

end Draft

def Tree.basis (t : Tree) (i : Introspector) : Basis := ⟨i, t.rootType, t.overrides, t.side⟩

theorem Tree.Extends.basis_eq {t t' : Tree} (he : t.Extends t') (i : Introspector) :
    t'.basis i = t.basis i := by
  rw [basis, basis, he.rootType_eq, he.overrides_eq, he.side_eq]

namespace Basis

variable (b : Basis) (chain : String) (token : Token)

/-- The type on which a segment is looked up. -/
def owner (parent : Option Portrait) : Except ChainError TypeRef :=
  let owner := (parent.map Portrait.effectiveType).getD b.root
  match owner.kind with
  | .object => .ok owner
  | .abstract =>
    match (b.source.concreteType owner).filter (·.kind == .object) with
    | some concrete => .ok concrete
    | none =>
      .error (.types chain (.unresolvedAbstract owner.name ((parent.map (·.path)).getD "")))
  | .scalar => .error (.types chain (.unknownField owner.name token.name))
  | _ =>
    .error (.unfit
      (.nestedContainer chain ((parent.map (·.field.name)).getD owner.name) token.span))

/-- The type that a hint names, else the override for a path. -/
def named (path : String) (hint : Option String) : Option String :=
  hint.orElse fun _ => b.overrides.lookup path

def typeNamed (name : String) : Except ChainError TypeRef :=
  (b.source.typeRef name).mapError (.types chain)

def concrete (path : String) (hint : Option String) (declared : TypeRef) :
    Except ChainError (Option TypeRef) :=
  match b.named path hint with
  | some name => (b.typeNamed chain name).map some
  | none => .ok (b.source.concreteType declared)

def memberTypes (path : String) (hint : Option String) (element : Option TypeRef)
    (field : FieldType) : Except ChainError (TypeRef × Option TypeRef) :=
  match element with
  | some element => (b.concrete chain path hint element).map fun concrete => (element, concrete)
  | none =>
    match b.named path hint with
    | some name => (b.typeNamed chain name).map fun declared => (declared, none)
    | none => .error (.types chain (.rawCollection field.owner field.name field.declared.kind))

/-- One member of a container. -/
def member (up : Portrait) (key : String) (d : Descriptor) (hint : Option String)
    (element : Option TypeRef) : Except ChainError Portrait :=
  (b.memberTypes chain (up.path ++ d.pathSuffix) hint element up.field).map fun types =>
    { tokenIndex := token.index, token := key, path := up.path ++ d.pathSuffix, field := up.field
      descriptor := d, declared := types.1, concrete := types.2, isFirst := false, side := b.side
      parent := some up.path }

def hintFor (side : MapSide) : Option String :=
  if token.shape.side? = some side then token.hint else none

def members (up : Portrait) : Except ChainError (List Portrait) :=
  if up.descriptor.isCollection then do
    let element ← b.member chain token up up.field.name .collectionMember token.hint
      (b.source.genericArguments up.field)[0]?
    return [element]
  else if up.descriptor.isMap then do
    let key ← b.member chain token up (MapSide.key.memberKey up.field.name) .mapKey
      (hintFor token .key) (b.source.genericArguments up.field)[0]?
    let value ← b.member chain token up (MapSide.value.memberKey up.field.name) .mapValue
      (hintFor token .value) (b.source.genericArguments up.field)[1]?
    return [key, value]
  else return []

def pathBelow (parent : Option Portrait) (name : String) : String :=
  match parent with
  | some p => p.path ++ "." ++ name
  | none => name

def fieldOf (parent : Option Portrait) : Except ChainError FieldType := do
  let owner ← b.owner chain token parent
  (b.source.fieldType owner.name token.name).mapError (.types chain)

/-- The node of a segment without its members. -/
def portrait (parent : Option Portrait) (field : FieldType) (concrete : Option TypeRef) :
    Portrait where
  tokenIndex := token.index
  token := token.name
  path := pathBelow parent token.name
  field := field
  descriptor := Descriptor.ofKind field.declared.kind
  declared := field.declared
  concrete := concrete
  isFirst := parent.isNone
  side := b.side
  parent := parent.map (·.path)

def concreteOf (parent : Option Portrait) (field : FieldType) :
    Except ChainError (Option TypeRef) :=
  if (Descriptor.ofKind field.declared.kind).isContainer then .ok none
  else b.concrete chain (pathBelow parent token.name) token.hint field.declared

def checkNotation (d : Descriptor) : Except ChainError Unit :=
  match Resolve.notationError? d chain token with
  | some error => .error (.unfit error)
  | none => .ok ()

/-- What a segment makes for a field that its notation fits. -/
def draftOf (parent : Option Portrait) (field : FieldType) : Except ChainError Draft := do
  let concrete ← b.concreteOf chain token parent field
  let members ← b.members chain token (b.portrait token parent field concrete)
  return ⟨b.portrait token parent field concrete, members⟩

/-- What a segment makes below a node, or at the root. -/
def draft (parent : Option Portrait) : Except ChainError Draft := do
  let field ← b.fieldOf chain token parent
  checkNotation chain token (Descriptor.ofKind field.declared.kind)
  b.draftOf chain token parent field

variable {b chain token} {parent : Option Portrait}

theorem draft_of_field {field : FieldType} (h : b.fieldOf chain token parent = .ok field) :
    b.draft chain token parent = (checkNotation chain token (Descriptor.ofKind field.declared.kind)
      >>= fun _ => b.draftOf chain token parent field) := by
  rw [draft, h]
  rfl

theorem notationError?_of_check {d : Descriptor} {u : Unit}
    (h : checkNotation chain token d = .ok u) : Resolve.notationError? d chain token = none := by
  unfold checkNotation at h
  cases herror : Resolve.notationError? d chain token with
  | none => rfl
  | some error => rw [herror] at h; cases h

/-- All that went into a draft. -/
structure Drafted (b : Basis) (chain : String) (token : Token) (parent : Option Portrait)
    (d : Draft) (field : FieldType) (concrete : Option TypeRef) : Prop where
  lookup : b.fieldOf chain token parent = .ok field
  fits : Resolve.notationError? (Descriptor.ofKind field.declared.kind) chain token = none
  concreteOf_eq : b.concreteOf chain token parent field = .ok concrete
  field_eq : d.field = b.portrait token parent field concrete
  members_eq : b.members chain token d.field = .ok d.members

theorem drafted_of_ok {d : Draft} (h : b.draft chain token parent = .ok d) :
    ∃ field concrete, b.Drafted chain token parent d field concrete := by
  obtain ⟨field, hfield, hrest⟩ := bind_eq_ok h
  obtain ⟨_, hfits, hrest⟩ := bind_eq_ok hrest
  obtain ⟨concrete, hconcrete, hrest⟩ := bind_eq_ok hrest
  obtain ⟨members, hmembers, hrest⟩ := bind_eq_ok hrest
  obtain rfl : (⟨b.portrait token parent field concrete, members⟩ : Draft) = d :=
    Except.ok.inj hrest
  exact ⟨field, concrete, hfield, notationError?_of_check hfits, hconcrete, rfl, hmembers⟩

theorem Drafted.draft_eq {d : Draft} {field : FieldType} {concrete : Option TypeRef}
    (h : b.Drafted chain token parent d field concrete) : b.draft chain token parent = .ok d := by
  have hfits : checkNotation chain token (Descriptor.ofKind field.declared.kind) = .ok () := by
    rw [checkNotation, h.fits]
  have hmembers := h.members_eq
  rw [h.field_eq] at hmembers
  have hd : (⟨b.portrait token parent field concrete, d.members⟩ : Draft) = d := by
    rw [← h.field_eq]
  rw [draft_of_field h.lookup, hfits]
  show b.draftOf chain token parent field = .ok d
  rw [draftOf, h.concreteOf_eq]
  simp only [bind, Except.bind, hmembers]
  exact congrArg Except.ok hd

/-! ## Paths of a draft -/

theorem path_of_member {up p : Portrait} {key : String} {d : Descriptor} {hint : Option String}
    {element : Option TypeRef} (h : b.member chain token up key d hint element = .ok p) :
    p.path = up.path ++ d.pathSuffix := by
  obtain ⟨types, -, rfl⟩ := map_eq_ok h
  rfl

/-- The paths of the members that a node of some role has. -/
def memberPaths (path : String) (d : Descriptor) : List String :=
  if d.isCollection then [path ++ "[*]"]
  else if d.isMap then [path ++ MapSide.key.marker, path ++ MapSide.value.marker]
  else []

/-- What the members of a node are, by the role of the node. -/
theorem members_cases {up : Portrait} {ms : List Portrait}
    (h : b.members chain token up = .ok ms) :
    (up.descriptor.isCollection = true ∧ ∃ m, ms = [m]
        ∧ b.member chain token up up.field.name .collectionMember token.hint
          (b.source.genericArguments up.field)[0]? = .ok m)
      ∨ (up.descriptor.isCollection = false ∧ up.descriptor.isMap = true ∧ ∃ key value,
        ms = [key, value]
        ∧ b.member chain token up (MapSide.key.memberKey up.field.name) .mapKey
          (hintFor token .key) (b.source.genericArguments up.field)[0]? = .ok key
        ∧ b.member chain token up (MapSide.value.memberKey up.field.name) .mapValue
          (hintFor token .value) (b.source.genericArguments up.field)[1]? = .ok value)
      ∨ (up.descriptor.isCollection = false ∧ up.descriptor.isMap = false ∧ ms = []) := by
  unfold members at h
  cases hcollection : up.descriptor.isCollection with
  | true =>
    rw [if_pos hcollection] at h
    obtain ⟨element, helement, hms⟩ := bind_eq_ok h
    exact .inl ⟨rfl, element, (Except.ok.inj hms).symm, helement⟩
  | false =>
    rw [if_neg (by simp [hcollection])] at h
    cases hmap : up.descriptor.isMap with
    | true =>
      rw [if_pos hmap] at h
      obtain ⟨key, hkey, hrest⟩ := bind_eq_ok h
      obtain ⟨value, hvalue, hms⟩ := bind_eq_ok hrest
      exact .inr (.inl ⟨rfl, rfl, key, value, (Except.ok.inj hms).symm, hkey, hvalue⟩)
    | false =>
      rw [if_neg (by simp [hmap])] at h
      exact .inr (.inr ⟨rfl, rfl, (Except.ok.inj h).symm⟩)

theorem exists_member_of_mem {up : Portrait} {ms : List Portrait}
    (h : b.members chain token up = .ok ms) {m : Portrait} (hm : m ∈ ms) :
    ∃ key role hint element, role.isMember = true
      ∧ b.member chain token up key role hint element = .ok m := by
  rcases members_cases h with ⟨-, only, rfl, honly⟩ | ⟨-, -, key, value, rfl, hkey, hvalue⟩
    | ⟨-, -, rfl⟩
  · rw [List.mem_singleton.mp hm]
    exact ⟨_, _, _, _, rfl, honly⟩
  · simp only [List.mem_cons, List.not_mem_nil, or_false] at hm
    rcases hm with rfl | rfl
    · exact ⟨_, _, _, _, rfl, hkey⟩
    · exact ⟨_, _, _, _, rfl, hvalue⟩
  · cases hm

theorem paths_of_members {up : Portrait} {ms : List Portrait}
    (h : b.members chain token up = .ok ms) :
    ms.map (·.path) = memberPaths up.path up.descriptor := by
  unfold memberPaths
  rcases members_cases h with ⟨hcollection, m, rfl, hm⟩
    | ⟨hcollection, hmap, key, value, rfl, hkey, hvalue⟩ | ⟨hcollection, hmap, rfl⟩
  · rw [if_pos hcollection, List.map_singleton, path_of_member hm]
    rfl
  · rw [if_neg (by simp [hcollection]), if_pos hmap, List.map_cons, List.map_singleton,
      path_of_member hkey, path_of_member hvalue]
    rfl
  · rw [if_neg (by simp [hcollection]), if_neg (by simp [hmap]), List.map_nil]

/-- A notation that fits a container leads to one of its members. -/
theorem suffix_mem_memberPaths {d : Descriptor}
    (hfits : Resolve.notationError? d chain token = none) (hcontainer : d.isContainer = true)
    (path : String) : path ++ token.shape.suffix ∈ memberPaths path d := by
  unfold memberPaths
  cases hcollection : d.isCollection with
  | true =>
    rw [if_pos rfl, Shape.suffix_of_collection (Resolve.shape_of_collection hfits hcollection)]
    exact List.mem_cons_self
  | false =>
    have hmap : d.isMap = true := by simpa [Descriptor.isContainer, hcollection] using hcontainer
    obtain ⟨side, hside⟩ := Resolve.side_of_fits hmap hfits
    rw [if_neg (by simp), if_pos hmap, Shape.suffix_of_side hside]
    cases side with
    | key => exact List.mem_cons_self
    | value => exact List.mem_cons_of_mem _ List.mem_cons_self

namespace Drafted

variable {d : Draft} {field : FieldType} {concrete : Option TypeRef}

theorem descriptor_eq (h : b.Drafted chain token parent d field concrete) :
    d.field.descriptor = Descriptor.ofKind field.declared.kind := by
  rw [h.field_eq]
  rfl

theorem path_eq (h : b.Drafted chain token parent d field concrete) :
    d.field.path = pathBelow parent token.name := by
  rw [h.field_eq]
  rfl

theorem paths_eq (h : b.Drafted chain token parent d field concrete) :
    d.all.map (·.path) = pathBelow parent token.name
      :: memberPaths (pathBelow parent token.name) (Descriptor.ofKind field.declared.kind) := by
  rw [Draft.all, List.map_cons, paths_of_members h.members_eq, h.path_eq, h.descriptor_eq]

theorem path_stop (h : b.Drafted chain token parent d field concrete) :
    (d.stop token).path = d.field.path ++ token.shape.suffix := by
  unfold Draft.stop
  cases hfind : d.members.find? (·.path == d.field.path ++ token.shape.suffix) with
  | some m => simpa using List.find?_some hfind
  | none =>
    -- No member is addressed, so the node has none.
    have hplain : (Descriptor.ofKind field.declared.kind).isContainer = false := by
      cases hcontainer : (Descriptor.ofKind field.declared.kind).isContainer with
      | false => rfl
      | true =>
        have hmem := suffix_mem_memberPaths h.fits hcontainer d.field.path
        rw [← h.descriptor_eq, ← paths_of_members h.members_eq] at hmem
        obtain ⟨m, hm, hpath⟩ := List.mem_map.mp hmem
        simpa [hpath] using List.find?_eq_none.mp hfind m hm
    rw [Resolve.suffix_of_plain h.fits hplain, String.append_empty]
    rfl

end Drafted

/-! ## Hints -/

theorem typeRef_of_typeNamed {name : String} {type : TypeRef}
    (h : b.typeNamed chain name = .ok type) : b.source.typeRef name = .ok type := mapError_eq_ok h

theorem concrete_of_hint {path hint : String} {declared : TypeRef} {concrete : Option TypeRef}
    (h : b.concrete chain path (some hint) declared = .ok concrete) :
    ∃ type, concrete = some type ∧ b.source.typeRef hint = .ok type := by
  obtain ⟨type, htype, rfl⟩ := map_eq_ok h
  exact ⟨type, rfl, typeRef_of_typeNamed htype⟩

/-- The type of a member is the one that its hint names, whatever the container says. -/
theorem member_of_hint {up p : Portrait} {key hint : String} {d : Descriptor}
    {element : Option TypeRef} (h : b.member chain token up key d (some hint) element = .ok p) :
    b.source.typeRef hint = .ok p.effectiveType := by
  obtain ⟨types, htypes, rfl⟩ := map_eq_ok h
  cases element with
  | some element =>
    obtain ⟨concrete, hconcrete, rfl⟩ := map_eq_ok htypes
    obtain ⟨type, rfl, htype⟩ := concrete_of_hint hconcrete
    exact htype
  | none =>
    obtain ⟨declared, hdeclared, rfl⟩ := map_eq_ok htypes
    exact typeRef_of_typeNamed hdeclared

theorem keyPath_ne_valuePath (path : String) :
    path ++ MapSide.key.marker ≠ path ++ MapSide.value.marker := by
  intro heq
  have hlist := congrArg String.toList heq
  simp [String.toList_append, MapSide.marker] at hlist

theorem position_of_collection {shape : Shape} (h : shape.isCollection = true) :
    shape.position = 0 := by
  cases shape with
  | collection index anchor => rfl
  | plain => cases h
  | map side anchor => cases h

/-- A segment leads to the member that it addresses, or to its node if that has no members. -/
theorem Drafted.stop_cases {d : Draft} {field : FieldType} {concrete : Option TypeRef}
    (h : b.Drafted chain token parent d field concrete) :
    ((Descriptor.ofKind field.declared.kind).isContainer = true ∧ ∃ key role,
        b.member chain token d.field key role token.hint
          (b.source.genericArguments field)[token.shape.position]? = .ok (d.stop token))
      ∨ ((Descriptor.ofKind field.declared.kind).isContainer = false ∧ d.stop token = d.field) := by
  have hfits := h.fits
  have hsource : d.field.field = field := by rw [h.field_eq, portrait]
  rw [← h.descriptor_eq] at hfits ⊢
  rcases members_cases h.members_eq with ⟨hcollection, m, hms, hm⟩
    | ⟨hcollection, hmap, key, value, hms, hkey, hvalue⟩ | ⟨hcollection, hmap, hms⟩
  · have hshape := Resolve.shape_of_collection hfits hcollection
    have hpath : m.path = d.field.path ++ "[*]" := path_of_member hm
    have hstop : d.stop token = m := by
      simp [Draft.stop, hms, Shape.suffix_of_collection hshape, hpath]
    rw [hsource, ← position_of_collection hshape] at hm
    exact .inl ⟨by rw [Descriptor.isContainer, hcollection, Bool.true_or], _, _, hstop ▸ hm⟩
  · obtain ⟨side, hside⟩ := Resolve.side_of_fits hmap hfits
    have hkeyPath : key.path = d.field.path ++ MapSide.key.marker := path_of_member hkey
    have hvaluePath : value.path = d.field.path ++ MapSide.value.marker := path_of_member hvalue
    have hsuffix := Shape.suffix_of_side hside
    refine .inl ⟨by rw [Descriptor.isContainer, hmap, Bool.or_true], ?_⟩
    cases side with
    | key =>
      have hstop : d.stop token = key := by simp [Draft.stop, hms, hsuffix, hkeyPath]
      rw [hintFor, if_pos hside, hsource] at hkey
      rw [Shape.position, hside, hstop]
      exact ⟨_, _, hkey⟩
    | value =>
      have hne := keyPath_ne_valuePath d.field.path
      have hstop : d.stop token = value := by
        simp [Draft.stop, hms, hsuffix, hkeyPath, hvaluePath, hne]
      rw [hintFor, if_pos hside, hsource] at hvalue
      rw [Shape.position, hside, hstop]
      exact ⟨_, _, hvalue⟩
  · refine .inr ⟨by rw [Descriptor.isContainer, hcollection, hmap, Bool.or_false], ?_⟩
    simp [Draft.stop, hms]

/-- A hint says the type of what its segment leads to. -/
theorem Drafted.typeRef_hint {d : Draft} {field : FieldType} {concrete : Option TypeRef}
    (h : b.Drafted chain token parent d field concrete) {hint : String}
    (hhint : token.hint = some hint) :
    b.source.typeRef hint = .ok (d.stop token).effectiveType := by
  rcases h.stop_cases with ⟨-, key, role, hmember⟩ | ⟨hplain, hstop⟩
  · rw [hhint] at hmember
    exact member_of_hint hmember
  · have hconcrete := h.concreteOf_eq
    rw [concreteOf, if_neg (by simp [hplain]), hhint] at hconcrete
    obtain ⟨type, rfl, htype⟩ := concrete_of_hint hconcrete
    rw [hstop, h.field_eq]
    exact htype

/-! ## Segments without hints -/

theorem owner_congr {chain' : String} {token' : Token} {type : TypeRef}
    (h : b.owner chain' token' parent = .ok type) : b.owner chain token parent = .ok type := by
  unfold owner at h ⊢
  simp only at h ⊢
  split at h
  next => exact h
  next =>
    split at h
    next => exact h
    next => cases h
  next => cases h
  next => cases h

theorem fieldOf_congr {chain' : String} {token' : Token} {field : FieldType}
    (hname : token'.name = token.name) (h : b.fieldOf chain' token' parent = .ok field) :
    b.fieldOf chain token parent = .ok field := by
  obtain ⟨type, howner, hfield⟩ := bind_eq_ok h
  rw [hname] at hfield
  rw [fieldOf, owner_congr howner]
  show (b.source.fieldType type.name token.name).mapError _ = _
  rw [mapError_eq_ok hfield]
  rfl

theorem typeNamed_congr {chain' name : String} {type : TypeRef}
    (h : b.typeNamed chain' name = .ok type) : b.typeNamed chain name = .ok type := by
  rw [typeNamed, typeRef_of_typeNamed h]
  rfl

theorem concrete_congr {chain' path : String} {hint : Option String} {declared : TypeRef}
    {concrete : Option TypeRef} (h : b.concrete chain' path hint declared = .ok concrete) :
    b.concrete chain path hint declared = .ok concrete := by
  unfold Basis.concrete at h ⊢
  split at h
  next name _ =>
    obtain ⟨type, htype, rfl⟩ := map_eq_ok h
    show (b.typeNamed chain name).map some = _
    rw [typeNamed_congr htype]
    rfl
  next => exact h

theorem memberTypes_congr {chain' path : String} {hint : Option String} {element : Option TypeRef}
    {field : FieldType} {types : TypeRef × Option TypeRef}
    (h : b.memberTypes chain' path hint element field = .ok types) :
    b.memberTypes chain path hint element field = .ok types := by
  cases element with
  | some element =>
    obtain ⟨concrete, hconcrete, rfl⟩ := map_eq_ok h
    rw [memberTypes, concrete_congr hconcrete]
    rfl
  | none =>
    unfold memberTypes at h ⊢
    simp only at h ⊢
    split at h
    next name _ =>
      obtain ⟨declared, hdeclared, rfl⟩ := map_eq_ok h
      show (b.typeNamed chain name).map _ = _
      rw [typeNamed_congr hdeclared]
      rfl
    next => cases h

theorem member_congr {chain' : String} {token' : Token} {up p : Portrait} {key : String}
    {d : Descriptor} {hint : Option String} {element : Option TypeRef}
    (hindex : token'.index = token.index)
    (h : b.member chain' token' up key d hint element = .ok p) :
    b.member chain token up key d hint element = .ok p := by
  obtain ⟨types, htypes, rfl⟩ := map_eq_ok h
  rw [member, memberTypes_congr htypes, hindex]
  rfl

theorem hintFor_of_none {side : MapSide} (h : token.hint = none) : hintFor token side = none := by
  rw [hintFor, h, ite_self]

theorem members_congr {chain' : String} {token' : Token} {up : Portrait} {ms : List Portrait}
    (hindex : token'.index = token.index) (hhint : token.hint = none) (hhint' : token'.hint = none)
    (h : b.members chain' token' up = .ok ms) : b.members chain token up = .ok ms := by
  unfold members
  rcases members_cases h with ⟨hcollection, m, rfl, hm⟩
    | ⟨hcollection, hmap, key, value, rfl, hkey, hvalue⟩ | ⟨hcollection, hmap, rfl⟩
  · rw [hhint'] at hm
    rw [if_pos hcollection, hhint, member_congr hindex hm]
    rfl
  · rw [hintFor_of_none hhint'] at hkey hvalue
    rw [if_neg (by simp [hcollection]), if_pos hmap, hintFor_of_none hhint, hintFor_of_none hhint,
      member_congr hindex hkey, member_congr hindex hvalue]
    rfl
  · rw [if_neg (by simp [hcollection]), if_neg (by simp [hmap])]
    rfl

/-- Without hints, a segment makes what another one of the same name has made, if its notation
fits. -/
theorem draft_congr {chain' : String} {token' : Token} {d : Draft}
    (hname : token'.name = token.name) (hindex : token'.index = token.index)
    (hhint : token.hint = none) (hhint' : token'.hint = none)
    (h : b.draft chain' token' parent = .ok d) :
    b.draft chain token parent = (checkNotation chain token d.field.descriptor).map fun _ => d := by
  obtain ⟨field, concrete, hd⟩ := drafted_of_ok h
  have hlookup : b.fieldOf chain token parent = .ok field := fieldOf_congr hname hd.lookup
  rw [hd.descriptor_eq]
  cases hfits : Resolve.notationError? (Descriptor.ofKind field.declared.kind) chain token with
  | some error =>
    rw [draft_of_field hlookup, checkNotation, hfits]
    rfl
  | none =>
    have hconcrete : b.concreteOf chain token parent field = .ok concrete := by
      have hconcrete' := hd.concreteOf_eq
      rw [concreteOf, hhint', hname] at hconcrete'
      rw [concreteOf, hhint]
      split at hconcrete'
      next hcontainer => rw [if_pos hcontainer]; exact hconcrete'
      next hplain => rw [if_neg hplain]; exact concrete_congr hconcrete'
    have hfield : d.field = b.portrait token parent field concrete := by
      rw [hd.field_eq, portrait, portrait, hname, hindex]
    have hmembers : b.members chain token d.field = .ok d.members :=
      members_congr hindex hhint hhint' hd.members_eq
    have hdraft : b.Drafted chain token parent d field concrete :=
      ⟨hlookup, hfits, hconcrete, hfield, hmembers⟩
    rw [hdraft.draft_eq, checkNotation, hfits]
    rfl

end Basis

theorem Basis.pathBelow_portraitOf (t : Tree) (parent : Option Node) (name : String) :
    pathBelow (parent.map t.portraitOf) name = Resolve.pathBelow parent name := by
  cases parent <;> rfl

/-- What a segment makes below a node of a tree, or at the root. -/
def Tree.draft (t : Tree) (i : Introspector) (chain : String) (current : Option Nat)
    (token : Token) : Except ChainError Draft :=
  (t.basis i).draft chain token ((current.bind t.node?).map t.portraitOf)

end ChainMapping
