import Mathlib.Data.List.Dedup
import Mathlib.Data.List.Nodup
import Mathlib.Data.List.Perm.Subperm
import ChainMapping.Naming
import ChainMapping.Proofs.Chain.Sanitized
import ChainMapping.Proofs.Ordered
import ChainMapping.Proofs.Text.Separator

/-!
# Names are told apart and kept

A registry is asked for one name after the other.  `Registry.Remembers` is what it knows about the
questions so far: its entries are the questions' keys with the answers given, each key once and each
name once.  Every question keeps this, as the search for a free name ends at one: there is one more
choice than there are names taken.
-/

namespace ChainMapping
namespace Naming
namespace Registry

/-! ## The search for a free name -/

theorem isTaken_iff {r : Registry} {name : String} :
    r.isTaken name = true ↔ name ∈ r.issued.map Prod.snd := by
  simp [isTaken]

theorem toList_candidate_succ (base : String) (n : Nat) :
    (candidate base (n + 1)).toList = base.toList ++ '_' :: (toString (n + 2)).toList := by
  simp [candidate, String.toList_append, toString]

/-- The choices for a name are distinct. -/
theorem candidate_inj {base : String} {m n : Nat} (h : candidate base m = candidate base n) :
    m = n := by
  have hlists := congrArg String.toList h
  match m, n with
  | 0, 0 => rfl
  | 0, n + 1 =>
    rw [toList_candidate_succ, candidate] at hlists
    simp at hlists
  | m + 1, 0 =>
    rw [toList_candidate_succ, candidate] at hlists
    simp at hlists
  | m + 1, n + 1 =>
    rw [toList_candidate_succ, toList_candidate_succ, List.append_cancel_left_eq,
      List.cons.injEq] at hlists
    have hnumbers := Text.toString_inj (String.toList_inj.mp hlists.2)
    omega

/-- The search passes over names that are taken, and stops at a free one if it stops early. -/
theorem firstFree_eq (r : Registry) (base : String) (tries start : Nat) :
    ∃ n, r.firstFree base tries start = candidate base n ∧ n ≤ start + tries
      ∧ (∀ m, start ≤ m → m < n → r.isTaken (candidate base m) = true)
      ∧ (n < start + tries → r.isTaken (candidate base n) = false) := by
  induction tries generalizing start with
  | zero => exact ⟨start, rfl, by omega, fun m hm hlt => by omega, fun h => by omega⟩
  | succ tries ih =>
    rw [firstFree]
    split
    next htaken =>
      obtain ⟨n, hname, hbound, hpassed, hstop⟩ := ih (start + 1)
      refine ⟨n, hname, by omega, fun m hm hlt => ?_, fun h => hstop (by omega)⟩
      by_cases hstart : m = start
      · rw [hstart]; exact htaken
      · exact hpassed m (by omega) hlt
    next hfree =>
      exact ⟨start, rfl, by omega, fun m hm hlt => by omega, fun _ => by simpa using hfree⟩

/-- Not all choices up to the number of names taken are taken. -/
theorem exists_free (r : Registry) (base : String) :
    ∃ n ≤ r.size, r.isTaken (candidate base n) = false := by
  by_contra hnone
  simp only [not_exists, not_and, Bool.not_eq_false] at hnone
  let choices := (List.range (r.size + 1)).map (candidate base)
  have hnodup : choices.Nodup := List.nodup_range.map fun _ _ => candidate_inj
  have htaken : choices ⊆ r.issued.map Prod.snd := by
    intro name hname
    obtain ⟨n, hn, rfl⟩ := List.mem_map.mp hname
    have hle : n ≤ r.size := by have := List.mem_range.mp hn; omega
    exact isTaken_iff.mp (hnone n hle)
  have hlength := (hnodup.subperm htaken).length_le
  simp only [choices, List.length_map, List.length_range] at hlength
  exact absurd hlength (by simp [size])

/-- The name found is the first choice that is free. -/
theorem firstFree_isFirst (r : Registry) (base : String) :
    ∃ n, r.firstFree base r.size 0 = candidate base n
      ∧ r.isTaken (candidate base n) = false
      ∧ ∀ m < n, r.isTaken (candidate base m) = true := by
  obtain ⟨n, hname, hbound, hpassed, hstop⟩ := firstFree_eq r base r.size 0
  refine ⟨n, hname, ?_, fun m hm => hpassed m (by omega) hm⟩
  by_cases hearly : n < 0 + r.size
  · exact hstop hearly
  · -- All earlier choices are taken, so the last one is the free one.
    obtain ⟨free, hfree, hisFree⟩ := exists_free r base
    have hlast : free = n := by
      by_cases hlt : free < n
      · rw [hpassed free (by omega) hlt] at hisFree
        exact absurd hisFree (by decide)
      · omega
    rwa [← hlast]

/-! ## Questions -/

/-- What a registry is asked: the name of a chain in a namespace. -/
structure Question where
  space : String
  chain : String

namespace Question

/-- What the question is about: chains with the same normal form are the same. -/
def subject (q : Question) : String × String := (q.space, Chain.sanitize q.chain)

def key (q : Question) : String := Registry.key q.space q.chain

/-- What the name is made from. -/
def base (q : Question) : String := fragment q.space ++ fragment q.chain

/-- The chain of the question is one. -/
def IsProper (q : Question) : Prop := ∃ chain, Chain.parse q.chain = .ok chain

theorem key_toList (q : Question) :
    q.key.toList = q.space.toList ++ ':' :: ':' :: (Chain.sanitize q.chain).toList := by
  simp [key, Registry.key, String.toList_append]

/-- Behind a longer namespace there would be a colon in the normal form of the other chain, with its
bracket closed behind it. -/
theorem eq_nil_of_tail {more text text' : List Char}
    (h : Chain.openedBy Chain.inNames [] text = some [])
    (h' : Chain.openedBy Chain.inNames [] text' = some [])
    (heq : ':' :: ':' :: text = more ++ ':' :: ':' :: text') : more = [] := by
  match more with
  | [] => rfl
  | [c] =>
    have htext : text = [] ++ ':' :: text' := by simpa using (List.cons.inj heq).2
    rw [htext] at h
    exact absurd h' (Chain.not_openedBy_after_mark rfl rfl rfl h)
  | c :: d :: more =>
    have htext : text = (more ++ [':']) ++ ':' :: text' := by
      simpa using (List.cons.inj (List.cons.inj heq).2).2
    rw [htext] at h
    exact absurd h' (Chain.not_openedBy_after_mark rfl rfl rfl h)

/-- The key of a question tells what it is about. -/
theorem key_eq_iff {q q' : Question} (h : q.IsProper) (h' : q'.IsProper) :
    q.key = q'.key ↔ q.subject = q'.subject := by
  constructor
  · intro heq
    have hlists := congrArg String.toList heq
    rw [key_toList, key_toList, List.append_eq_append_iff] at hlists
    have hopened := Chain.openedBy_sanitize h
    have hopened' := Chain.openedBy_sanitize h'
    obtain ⟨more, hspace, htext⟩ | ⟨more, hspace, htext⟩ := hlists
    · have hmore := eq_nil_of_tail hopened hopened' htext
      subst hmore
      simp only [List.append_nil, List.nil_append, List.cons.injEq, true_and] at hspace htext
      exact Prod.ext (String.toList_inj.mp hspace.symm) (String.toList_inj.mp htext)
    · have hmore := eq_nil_of_tail hopened' hopened htext
      subst hmore
      simp only [List.append_nil, List.nil_append, List.cons.injEq, true_and] at hspace htext
      exact Prod.ext (String.toList_inj.mp hspace) (String.toList_inj.mp htext.symm)
  · intro heq
    have hparts := Prod.mk.inj heq
    rw [key, key, Registry.key, Registry.key, hparts.1, hparts.2]

end Question

/-- The registry after a question, and the name that answers it. -/
def ask (r : Registry) (q : Question) : String × Registry := r.synthesize q.space q.chain

/-- The registry after a list of questions. -/
def after (r : Registry) (questions : List Question) : Registry :=
  questions.foldl (fun r q => (r.ask q).2) r

/-- The names that answer a list of questions, one after the other. -/
def answers : Registry → List Question → List String
  | _, [] => []
  | r, q :: later => (r.ask q).1 :: (r.ask q).2.answers later

/-- A question is answered from the entries, or with the first free choice, which is entered. -/
theorem ask_cases (r : Registry) (q : Question) :
    (∃ name, r.issued.lookup q.key = some name ∧ r.ask q = (name, r))
      ∨ (r.issued.lookup q.key = none ∧ ∃ n, r.isTaken (candidate q.base n) = false
        ∧ (∀ m < n, r.isTaken (candidate q.base m) = true)
        ∧ r.ask q = (candidate q.base n, ⟨(q.key, candidate q.base n) :: r.issued⟩)) := by
  rw [ask, synthesize]
  cases hlookup : r.issued.lookup q.key with
  | some name =>
    refine .inl ⟨name, rfl, ?_⟩
    rw [Question.key] at hlookup
    rw [hlookup]
  | none =>
    obtain ⟨n, hname, hfree, hpassed⟩ := firstFree_isFirst r q.base
    refine .inr ⟨rfl, n, hfree, hpassed, ?_⟩
    rw [← hname]
    rw [Question.key] at hlookup
    rw [hlookup]
    rfl

/-! ## What a registry knows -/

/-- The entries of a registry are the questions asked so far with their answers, no key and no name
twice. -/
structure Remembers (r : Registry) (asked : List Question) (names : List String) : Prop where
  keys_nodup : (Ordered.keys r.issued).Nodup
  names_nodup : (r.issued.map Prod.snd).Nodup
  length_eq : names.length = asked.length
  mem_iff : ∀ entry, entry ∈ r.issued ↔ entry ∈ (asked.map Question.key).zip names

variable {r : Registry} {asked questions : List Question} {names : List String}

theorem remembers_start : Remembers {} [] [] where
  keys_nodup := List.nodup_nil
  names_nodup := List.nodup_nil
  length_eq := rfl
  mem_iff := fun _ => Iff.rfl

theorem Remembers.isTaken_iff (h : r.Remembers asked names) {name : String} :
    r.isTaken name = true ↔ name ∈ names := by
  have hnames : ((asked.map Question.key).zip names).map Prod.snd = names :=
    List.map_snd_zip (by simp [h.length_eq])
  rw [Registry.isTaken_iff, ← hnames]
  simp only [List.mem_map, h.mem_iff]

theorem Remembers.mem_keys_iff (h : r.Remembers asked names) {key : String} :
    key ∈ Ordered.keys r.issued ↔ key ∈ asked.map Question.key := by
  have hkeys : ((asked.map Question.key).zip names).map Prod.fst = asked.map Question.key :=
    List.map_fst_zip (by simp [h.length_eq])
  rw [← hkeys]
  simp only [Ordered.keys, List.mem_map, h.mem_iff]

theorem Remembers.ask (h : r.Remembers asked names) (q : Question) :
    (r.ask q).2.Remembers (asked ++ [q]) (names ++ [(r.ask q).1]) := by
  have hzip : ∀ name : String, ((asked ++ [q]).map Question.key).zip (names ++ [name])
      = (asked.map Question.key).zip names ++ [(q.key, name)] := by
    intro name
    rw [List.map_append, List.zip_append (by simp [h.length_eq])]
    rfl
  obtain ⟨name, hlookup, hask⟩ | ⟨hlookup, n, hfree, -, hask⟩ := r.ask_cases q
  · rw [hask]
    have hmem := (Ordered.lookup_eq_some_iff h.keys_nodup).mp hlookup
    refine ⟨h.keys_nodup, h.names_nodup, by simp [h.length_eq], fun entry => ?_⟩
    rw [hzip, List.mem_append, List.mem_singleton, ← h.mem_iff]
    refine ⟨.inl, ?_⟩
    rintro (hentry | rfl)
    · exact hentry
    · exact hmem
  · rw [hask]
    have hnew : q.key ∉ Ordered.keys r.issued := Ordered.lookup_eq_none_iff.mp hlookup
    have hunused : candidate q.base n ∉ r.issued.map Prod.snd := fun hmem => by
      rw [Registry.isTaken_iff.mpr hmem] at hfree
      exact absurd hfree (by decide)
    refine ⟨List.nodup_cons.mpr ⟨hnew, h.keys_nodup⟩, List.nodup_cons.mpr ⟨hunused, h.names_nodup⟩,
      by simp [h.length_eq], fun entry => ?_⟩
    rw [hzip, List.mem_append, List.mem_singleton, ← h.mem_iff, List.mem_cons, or_comm]

theorem Remembers.after (h : r.Remembers asked names) (questions : List Question) :
    (r.after questions).Remembers (asked ++ questions) (names ++ r.answers questions) := by
  induction questions generalizing r asked names with
  | nil => simpa [answers, Registry.after] using h
  | cons q later ih => simpa [answers, Registry.after] using ih (h.ask q)

theorem remembers_after (questions : List Question) :
    (after {} questions).Remembers questions (answers {} questions) := by
  simpa using remembers_start.after questions

theorem answers_append (r : Registry) (before later : List Question) :
    r.answers (before ++ later) = r.answers before ++ (r.after before).answers later := by
  induction before generalizing r with
  | nil => rfl
  | cons q rest ih => simp [answers, after, ih]

theorem Remembers.name_eq_iff (h : r.Remembers asked names) {i j : Nat} (hi : i < asked.length)
    (hj : j < asked.length) : names[i]? = names[j]? ↔ asked[i].key = asked[j].key := by
  have hentry : ∀ k (hk : k < asked.length), ∃ name, names[k]? = some name
      ∧ (asked[k].key, name) ∈ r.issued := by
    intro k hk
    have hk' : k < names.length := by rw [h.length_eq]; exact hk
    refine ⟨names[k], List.getElem?_eq_getElem hk', (h.mem_iff _).mpr ?_⟩
    have hzip : k < ((asked.map Question.key).zip names).length := by
      rw [List.length_zip, List.length_map]
      omega
    exact List.mem_iff_getElem.mpr ⟨k, hzip, by simp⟩
  obtain ⟨name, hname, hmem⟩ := hentry i hi
  obtain ⟨name', hname', hmem'⟩ := hentry j hj
  rw [hname, hname', Option.some.injEq]
  constructor
  · rintro rfl
    exact congrArg Prod.fst (List.inj_on_of_nodup_map h.names_nodup hmem hmem' rfl)
  · intro hkey
    exact congrArg Prod.snd (List.inj_on_of_nodup_map h.keys_nodup hmem hmem' hkey)

/-- There are as many entries as there are things asked about. -/
theorem Remembers.size_eq (h : r.Remembers asked names) (hproper : ∀ q ∈ asked, q.IsProper) :
    r.size = (asked.map Question.subject).dedup.length := by
  let keyOf : String × String → String := fun subject => subject.1 ++ "::" ++ subject.2
  have hnodup : ((asked.map Question.subject).dedup.map keyOf).Nodup := by
    refine (List.nodup_dedup _).map_on fun subject hsubject subject' hsubject' heq => ?_
    obtain ⟨q, hq, rfl⟩ := List.mem_map.mp (List.mem_dedup.mp hsubject)
    obtain ⟨q', hq', rfl⟩ := List.mem_map.mp (List.mem_dedup.mp hsubject')
    exact (Question.key_eq_iff (hproper q hq) (hproper q' hq')).mp heq
  have hperm : (Ordered.keys r.issued).Perm ((asked.map Question.subject).dedup.map keyOf) := by
    rw [List.perm_ext_iff_of_nodup h.keys_nodup hnodup]
    intro key
    rw [h.mem_keys_iff, List.mem_map, List.mem_map]
    simp only [List.mem_dedup, List.mem_map, exists_exists_and_eq_and]
    rfl
  have hlength := hperm.length_eq
  rwa [Ordered.keys, List.length_map, List.length_map] at hlength

theorem Remembers.first_free (h : r.Remembers asked names) {q : Question}
    (hnew : q.key ∉ asked.map Question.key) :
    ∃ n, (r.ask q).1 = candidate q.base n ∧ candidate q.base n ∉ names
      ∧ ∀ m < n, candidate q.base m ∈ names := by
  obtain ⟨name, hlookup, -⟩ | ⟨-, n, hfree, hpassed, hask⟩ := r.ask_cases q
  · have hmem := (Ordered.lookup_eq_some_iff h.keys_nodup).mp hlookup
    exact absurd (h.mem_keys_iff.mp (List.mem_map_of_mem hmem)) hnew
  · refine ⟨n, by rw [hask], fun hmem => ?_, fun m hm => h.isTaken_iff.mp (hpassed m hm)⟩
    rw [h.isTaken_iff.mpr hmem] at hfree
    exact absurd hfree (by decide)

/-- Two questions have the same answer exactly if they ask about the same thing.  A new one is
answered with the first choice for its name that was not given out before, and the registry has
one entry for each thing asked about. -/
theorem answers_eq_iff (questions : List Question) (hproper : ∀ q ∈ questions, q.IsProper) :
    (answers {} questions).length = questions.length
      ∧ (∀ i j (hi : i < questions.length) (hj : j < questions.length),
        (answers {} questions)[i]? = (answers {} questions)[j]?
          ↔ questions[i].subject = questions[j].subject)
      ∧ (∀ i (hi : i < questions.length),
        questions[i].subject ∉ (questions.take i).map Question.subject →
          ∃ n, (answers {} questions)[i]? = some (candidate questions[i].base n)
            ∧ candidate questions[i].base n ∉ (answers {} questions).take i
            ∧ ∀ m < n, candidate questions[i].base m ∈ (answers {} questions).take i)
      ∧ (after {} questions).size = (questions.map Question.subject).dedup.length := by
  have hall := remembers_after questions
  refine ⟨hall.length_eq, fun i j hi hj => ?_, fun i hi hnew => ?_, hall.size_eq hproper⟩
  · rw [hall.name_eq_iff hi hj]
    exact Question.key_eq_iff (hproper _ (List.getElem_mem hi)) (hproper _ (List.getElem_mem hj))
  · have hbefore := remembers_after (questions.take i)
    have hlength : (answers {} (questions.take i)).length = i := by
      rw [hbefore.length_eq, List.length_take]
      omega
    have hsplit : answers {} questions = answers {} (questions.take i)
        ++ (after {} (questions.take i)).answers (questions[i] :: questions.drop (i + 1)) := by
      rw [← answers_append, List.getElem_cons_drop, List.take_append_drop]
    have hkey : questions[i].key ∉ (questions.take i).map Question.key := by
      intro hmem
      obtain ⟨q, hq, hqkey⟩ := List.mem_map.mp hmem
      have hsubject := (Question.key_eq_iff (hproper q (List.mem_of_mem_take hq))
        (hproper _ (List.getElem_mem hi))).mp hqkey
      exact hnew (List.mem_map.mpr ⟨q, hq, hsubject⟩)
    obtain ⟨n, hname, hfree, hpassed⟩ := hbefore.first_free hkey
    have htake : (answers {} questions).take i = answers {} (questions.take i) := by
      rw [hsplit, List.take_left' hlength]
    refine ⟨n, ?_, by rwa [htake], by rwa [htake]⟩
    rw [hsplit, List.getElem?_append_right (by omega), hlength, Nat.sub_self, answers, hname]
    rfl

/-- Words run together, brackets that are dropped, a marker spelled out, and a namespace that ends
where a hint goes on. -/
def alikeQuestions : List Question :=
  [⟨"sales", "a.b"⟩, ⟨"sales", "a_b"⟩, ⟨"sales", "rows[0].m[k,v]<K>"⟩,
    ⟨"sales", "rows[^].m[x,y]<K>"⟩, ⟨"sales", "rows.m.key"⟩, ⟨"sales", "a(x::y)"⟩,
    ⟨"sales::a(x", "y"⟩, ⟨"sales", "a.b"⟩]

theorem answers_eq_iff_alikeQuestions : (∀ q ∈ alikeQuestions, q.IsProper)
    ∧ (answers {} alikeQuestions)[0]? = (answers {} alikeQuestions)[7]?
    ∧ (answers {} alikeQuestions)[2]? = (answers {} alikeQuestions)[3]?
    ∧ (answers {} alikeQuestions)[0]? ≠ (answers {} alikeQuestions)[1]?
    ∧ (answers {} alikeQuestions)[2]? ≠ (answers {} alikeQuestions)[4]?
    ∧ (after {} alikeQuestions).size = 6 := by
  have hproper : ∀ q ∈ alikeQuestions, q.IsProper := by
    intro q hq
    simp only [alikeQuestions, List.mem_cons, List.not_mem_nil, or_false] at hq
    rcases hq with rfl | rfl | rfl | rfl | rfl | rfl | rfl | rfl <;> exact ⟨_, rfl⟩
  have hcount : (alikeQuestions.map Question.subject).dedup.length = 6 := by decide +kernel
  obtain ⟨-, hsame, -, hsize⟩ := answers_eq_iff alikeQuestions hproper
  refine ⟨hproper, (hsame 0 7 (by decide) (by decide)).mpr (by decide +kernel),
    (hsame 2 3 (by decide) (by decide)).mpr (by decide +kernel), ?_, ?_, hsize.trans hcount⟩
  · exact mt (hsame 0 1 (by decide) (by decide)).mp (by decide +kernel)
  · exact mt (hsame 2 4 (by decide) (by decide)).mp (by decide +kernel)

end Registry
end Naming
end ChainMapping
