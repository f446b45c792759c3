/-
This file continues the law of ordered containers: what a container holds after a
run of entries. Entries whose keys are all new are appended as they come, so a
container that is written entry by entry and put together again is the same one.
-/

import Mathlib.Data.List.Induction
import ListQuery.Keyed

namespace ListQuery

namespace Keyed

variable {Entry Key : Type}

/-- Entries are distinct under a key when they are under a part of it. -/
theorem distinct_of_part {Part : Type} {key : Entry → Key} (part : Key → Part)
    {entries : List Entry} (distinct : Distinct (fun entry => part (key entry)) entries) :
    Distinct key entries := by
  rw [Distinct, ← Function.comp_def part key, ← List.map_map] at distinct
  refine List.Pairwise.of_map part (fun _ _ different same => ?_) distinct
  exact different (congrArg part same)

/-- Entries stay distinct under a view of their keys that tells these keys apart. -/
theorem distinct_map {View : Type} {key : Entry → Key} {view : Key → View} {entries : List Entry}
    (tells : ∀ first ∈ entries, ∀ second ∈ entries,
      view (key first) = view (key second) → key first = key second)
    (distinct : Distinct key entries) : Distinct (fun entry => view (key entry)) entries := by
  rw [Distinct, List.Nodup, List.pairwise_map] at distinct ⊢
  exact distinct.imp_of_mem fun inFirst inSecond different same =>
    different (tells _ inFirst _ inSecond same)

variable [DecidableEq Key]

/-! ### New keys -/

/-- An entry under a new key goes to the end. -/
theorem put_of_new (key : Entry → Key) (entry : Entry) {entries : List Entry}
    (new : key entry ∉ entries.map key) : put key entry entries = entries ++ [entry] := by
  induction entries with
  | nil => rfl
  | cons head rest inductionHypothesis =>
    rw [List.map_cons, List.mem_cons, not_or] at new
    have other : ¬key head = key entry := fun same => new.1 same.symm
    rw [put, if_neg other, inductionHypothesis new.2, List.cons_append]

/-- Entries under new keys go to the end in order. -/
theorem foldl_put_of_distinct (key : Entry → Key) (built entries : List Entry)
    (distinct : Distinct key (built ++ entries)) :
    entries.foldl (fun built entry => put key entry built) built = built ++ entries := by
  induction entries generalizing built with
  | nil => rw [List.foldl_nil, List.append_nil]
  | cons head rest inductionHypothesis =>
    have regrouped : built ++ head :: rest = built ++ [head] ++ rest := by
      rw [List.append_assoc, List.singleton_append]
    have new : key head ∉ built.map key := by
      intro taken
      rw [Distinct, List.map_append, List.map_cons] at distinct
      exact (List.nodup_append.mp distinct).2.2 _ taken _ List.mem_cons_self rfl
    rw [List.foldl_cons, put_of_new key head new, inductionHypothesis _ (regrouped ▸ distinct),
      ← regrouped]

/-- Entries under distinct keys are a container as they stand. -/
theorem ofList_of_distinct (key : Entry → Key) {entries : List Entry}
    (distinct : Distinct key entries) : ofList key entries = entries := by
  rw [ofList, foldl_put_of_distinct key [] entries distinct, List.nil_append]

/-! ### What a container holds -/

/-- What is found under a key is held and has that key. -/
theorem mem_of_find? {key : Entry → Key} {wanted : Key} {entry : Entry} {entries : List Entry}
    (found : find? key wanted entries = some entry) : entry ∈ entries ∧ key entry = wanted := by
  unfold find? at found
  have hasKey := List.find?_some found
  exact ⟨List.mem_of_find?_eq_some found, of_decide_eq_true hasKey⟩

/-- An entry is found under its key when no other entry has that key. -/
theorem find?_of_mem {key : Entry → Key} {entry : Entry} {entries : List Entry}
    (distinct : Distinct key entries) (member : entry ∈ entries) :
    find? key (key entry) entries = some entry := by
  induction entries with
  | nil => cases member
  | cons head rest inductionHypothesis =>
    obtain ⟨new, others⟩ := List.nodup_cons.mp distinct
    unfold find? at inductionHypothesis ⊢
    rw [List.find?_cons]
    rcases List.mem_cons.mp member with rfl | inRest
    · rw [decide_eq_true rfl]
    · have other : key head ≠ key entry := fun same =>
        new (same ▸ List.mem_map_of_mem inRest)
      rw [decide_eq_false other]
      exact inductionHypothesis others inRest

/-- An entry that was put is found under its key, and the others under theirs. -/
theorem find?_put (key : Entry → Key) (entry : Entry) (wanted : Key) (entries : List Entry) :
    find? key wanted (put key entry entries) =
      if key entry = wanted then some entry else find? key wanted entries := by
  unfold find?
  induction entries with
  | nil =>
    rw [put, List.find?_cons]
    by_cases same : key entry = wanted
    · rw [decide_eq_true same, if_pos same]
    · rw [decide_eq_false same, if_neg same]
  | cons head rest inductionHypothesis =>
    rw [put]
    by_cases taken : key head = key entry
    · rw [if_pos taken, List.find?_cons, List.find?_cons, taken]
      by_cases same : key entry = wanted
      · rw [decide_eq_true same, if_pos same]
      · rw [decide_eq_false same, if_neg same]
    · rw [if_neg taken, List.find?_cons, List.find?_cons, inductionHypothesis]
      by_cases same : key head = wanted
      · have other : ¬key entry = wanted := fun again => taken (same.trans again.symm)
        simp only [decide_eq_true same, if_neg other]
      · simp only [decide_eq_false same]

/-- The value under a key is found when no other entry has that key. -/
theorem lookup_of_mem {Value : Type} {entries : List (Key × Value)}
    (distinct : Distinct Prod.fst entries) {key : Key} {value : Value}
    (member : (key, value) ∈ entries) : entries.lookup key = some value := by
  induction entries with
  | nil => cases member
  | cons head rest inductionHypothesis =>
    obtain ⟨new, others⟩ := List.nodup_cons.mp distinct
    rw [List.lookup_cons]
    rcases List.mem_cons.mp member with rfl | inRest
    · rw [beq_self_eq_true]
    · have other : key ≠ head.1 := fun same => new (same ▸ List.mem_map_of_mem inRest)
      rw [beq_eq_false_iff_ne.mpr other]
      exact inductionHypothesis others inRest

/-- Putting an entry brings in nothing else. -/
theorem mem_put {key : Entry → Key} {entry other : Entry} {entries : List Entry}
    (member : other ∈ put key entry entries) : other = entry ∨ other ∈ entries := by
  induction entries with
  | nil => exact Or.inl (List.mem_singleton.mp member)
  | cons head rest inductionHypothesis =>
    rw [put] at member
    split at member
    · rcases List.mem_cons.mp member with same | inRest
      · exact Or.inl same
      · exact Or.inr (List.mem_cons_of_mem _ inRest)
    · rcases List.mem_cons.mp member with same | inRest
      · exact Or.inr (same ▸ List.mem_cons_self)
      · exact (inductionHypothesis inRest).imp id (List.mem_cons_of_mem _)

/-- A container holds only entries that were put into it. -/
theorem mem_ofList {key : Entry → Key} {other : Entry} {entries : List Entry}
    (member : other ∈ ofList key entries) : other ∈ entries := by
  have grows : ∀ (more built : List Entry),
      other ∈ more.foldl (fun built entry => put key entry built) built →
      other ∈ built ∨ other ∈ more := by
    intro more
    induction more with
    | nil => exact fun _ held => Or.inl held
    | cons head rest inductionHypothesis =>
      intro built held
      rcases inductionHypothesis _ held with inBuilt | inRest
      · rcases mem_put inBuilt with same | before
        · exact Or.inr (same ▸ List.mem_cons_self)
        · exact Or.inl before
      · exact Or.inr (List.mem_cons_of_mem _ inRest)
  exact (grows entries [] member).resolve_left nofun

/-- Putting an entry loses no key, and the key of the entry is there. -/
theorem mem_map_put {key : Entry → Key} {entry : Entry} {wanted : Key} {entries : List Entry}
    (held : wanted = key entry ∨ wanted ∈ entries.map key) :
    wanted ∈ (put key entry entries).map key := by
  rw [map_put]
  split
  · rename_i taken
    rcases held with rfl | before
    · exact taken
    · exact before
  · rw [List.mem_append, List.mem_singleton]
    exact held.symm

/-- A container holds every key that was put into it. -/
theorem mem_map_ofList {key : Entry → Key} {wanted : Key} {entries : List Entry}
    (given : wanted ∈ entries.map key) : wanted ∈ (ofList key entries).map key := by
  have grows : ∀ (more built : List Entry), wanted ∈ built.map key ∨ wanted ∈ more.map key →
      wanted ∈ (more.foldl (fun built entry => Keyed.put key entry built) built).map key := by
    intro more
    induction more with
    | nil => exact fun _ held => held.resolve_right nofun
    | cons head rest inductionHypothesis =>
      intro built held
      refine inductionHypothesis _ ?_
      rw [List.map_cons, List.mem_cons, ← or_assoc] at held
      exact held.imp_left fun now => mem_map_put now.symm
  exact grows entries [] (.inr given)

/-! ### Runs of entries

A container that a run of entries builds is told from the run: its keys are those of the run as
they first came, and every key has the entry that came last under it. -/

/-- The entry that comes last under a key in a run of entries. -/
def last? (key : Entry → Key) (wanted : Key) (entries : List Entry) : Option Entry :=
  find? key wanted entries.reverse

/-- A container is what a run of entries leaves. -/
structure LeftBy (key : Entry → Key) (entries built : List Entry) : Prop where
  /-- The keys of the run, each once, in the order in which they first came. -/
  keys : built.map key = (entries.map key).eraseDups
  distinct : Distinct key built
  /-- Under each of these keys stands the entry that came last under it. -/
  contents : built.map some = (entries.map key).eraseDups.map fun wanted => last? key wanted entries
  find? : ∀ wanted, find? key wanted built = last? key wanted entries

theorem ofList_append_singleton (key : Entry → Key) (entries : List Entry) (entry : Entry) :
    ofList key (entries ++ [entry]) = put key entry (ofList key entries) := by
  rw [ofList, List.foldl_append]
  rfl

/-- The entry at the end of a run is the last one under its key, and changes no other. -/
theorem last?_append_singleton (key : Entry → Key) (wanted : Key) (entries : List Entry)
    (entry : Entry) :
    last? key wanted (entries ++ [entry]) =
      if key entry = wanted then some entry else last? key wanted entries := by
  rw [last?, List.reverse_append, List.reverse_singleton, List.singleton_append, Keyed.find?,
    List.find?_cons]
  by_cases same : key entry = wanted
  · rw [decide_eq_true same, if_pos same]
  · rw [decide_eq_false same, if_neg same]
    rfl

/-- A container holds the keys that were put into it, in the order in which they first came. -/
theorem map_ofList (key : Entry → Key) (entries : List Entry) :
    (ofList key entries).map key = (entries.map key).eraseDups := by
  induction entries using List.reverseRecOn with
  | nil => rfl
  | append_singleton entries entry inductionHypothesis =>
    rw [ofList_append_singleton, map_put, inductionHypothesis, List.map_append,
      List.eraseDups_append]
    by_cases taken : key entry ∈ entries.map key
    · have nothing : [key entry].removeAll (entries.map key) = [] := by
        rw [List.removeAll, List.filter_cons_of_neg, List.filter_nil]
        rw [List.elem_eq_true_of_mem taken]
        exact Bool.false_ne_true
      rw [if_pos (List.mem_eraseDups.mpr taken), List.map_singleton, nothing, List.eraseDups_nil,
        List.append_nil]
    · have itself : [key entry].removeAll (entries.map key) = [key entry] := by
        rw [List.removeAll, List.filter_cons_of_pos, List.filter_nil]
        rw [Bool.eq_false_iff.mpr fun held => taken (List.mem_of_elem_eq_true held)]
        rfl
      rw [if_neg fun held => taken (List.mem_eraseDups.mp held), List.map_singleton, itself]
      rfl

/-- Under every key a container holds the entry that was put there last. -/
theorem find?_ofList (key : Entry → Key) (wanted : Key) (entries : List Entry) :
    find? key wanted (ofList key entries) = last? key wanted entries := by
  induction entries using List.reverseRecOn with
  | nil => rfl
  | append_singleton entries entry inductionHypothesis =>
    rw [ofList_append_singleton, find?_put, last?_append_singleton, inductionHypothesis]

/-- What a run of entries builds is what it leaves. -/
theorem leftBy_ofList (key : Entry → Key) (entries : List Entry) :
    LeftBy key entries (ofList key entries) where
  keys := map_ofList key entries
  distinct := distinct_ofList key entries
  contents := by
    rw [← map_ofList, List.map_map]
    refine List.map_congr_left fun entry member => ?_
    rw [Function.comp_apply, ← find?_ofList, find?_of_mem (distinct_ofList key entries) member]
  find? := fun wanted => find?_ofList key wanted entries

/-- Keys that tell the same entries apart make the same containers. -/
theorem put_congr {Other : Type} [DecidableEq Other] {key : Entry → Key} {other : Entry → Other}
    (alike : ∀ first second, key first = key second ↔ other first = other second) (entry : Entry)
    (entries : List Entry) : put key entry entries = put other entry entries := by
  induction entries with
  | nil => rfl
  | cons head rest inductionHypothesis =>
    rw [put, put, inductionHypothesis, if_congr (alike head entry) rfl rfl]

/-- Entries of another class, which a key tells from those of this class, leave these as they
are. -/
theorem filter_put {key : Entry → Key} {belongs : Entry → Bool}
    (told : ∀ first second, key first = key second → belongs first = belongs second)
    (entry : Entry) (entries : List Entry) :
    (put key entry entries).filter belongs =
      if belongs entry then put key entry (entries.filter belongs)
      else entries.filter belongs := by
  induction entries with
  | nil =>
    rw [put, List.filter_nil, List.filter_cons, List.filter_nil]
    rfl
  | cons head rest inductionHypothesis =>
    rw [put]
    by_cases taken : key head = key entry
    · rw [if_pos taken, List.filter_cons, List.filter_cons, told head entry taken]
      split
      · rw [put, if_pos taken]
      · rfl
    · rw [if_neg taken, List.filter_cons, List.filter_cons, inductionHypothesis]
      by_cases headBelongs : belongs head
      · rw [if_pos headBelongs, if_pos headBelongs]
        split
        · rw [put, if_neg taken]
        · rfl
      · rw [if_neg headBelongs, if_neg headBelongs]

/-- The entries of one class in a container are what the entries of that class build alone. -/
theorem filter_ofList {key : Entry → Key} {belongs : Entry → Bool}
    (told : ∀ first second, key first = key second → belongs first = belongs second)
    (entries : List Entry) :
    (ofList key entries).filter belongs = ofList key (entries.filter belongs) := by
  induction entries using List.reverseRecOn with
  | nil => rfl
  | append_singleton entries entry inductionHypothesis =>
    rw [ofList_append_singleton, filter_put told, inductionHypothesis, List.filter_append]
    by_cases entryBelongs : belongs entry
    · rw [if_pos entryBelongs, List.filter_cons_of_pos entryBelongs, List.filter_nil,
        ofList_append_singleton]
    · rw [if_neg entryBelongs, List.filter_cons_of_neg entryBelongs, List.filter_nil,
        List.append_nil]

/-- A container takes the entries of a run one after another; `puts` says how it takes one. -/
inductive Run {Container : Type} (puts : Container → Entry → Container → Prop) :
    Container → List Entry → Container → Prop
  | done {container : Container} : Run puts container [] container
  | step {before between after : Container} {entry : Entry} {entries : List Entry}
      (put : puts before entry between) (others : Run puts between entries after) :
      Run puts before (entry :: entries) after

/-- When a container takes every entry in the place that its key has, or at the end, a run from the
empty container builds what the law of ordered containers says. -/
theorem Run.eq_ofList {Container : Type} {puts : Container → Entry → Container → Prop}
    {empty built : Container} {entries : List Entry} {key : Entry → Key}
    (view : Container → List Entry) (starts : view empty = [])
    (each : ∀ {before entry after}, puts before entry after →
      view after = put key entry (view before))
    (run : Run puts empty entries built) : view built = ofList key entries := by
  have grows : view built =
      entries.foldl (fun built entry => Keyed.put key entry built) (view empty) := by
    clear starts
    induction run with
    | done => rfl
    | step put _ inductionHypothesis => rw [inductionHypothesis, each put, List.foldl_cons]
  rw [grows, starts, ofList]

end Keyed

end ListQuery
