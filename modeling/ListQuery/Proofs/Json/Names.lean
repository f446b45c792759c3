/-
This file proves where the two ways to decode a record meet. Straight from text a
record sees every member that is written, while a document has already merged those
of one name. A strict record refuses the second member of a name, so it is read from
a text exactly when the document that the text holds decodes to it and the text
names no field of the record twice. Nothing else tells the two ways apart: not the
order in which faults are met, and not the array form.
-/

import ListQuery.Proofs.Json.Records

namespace ListQuery

namespace Json

variable {text inner rest : List Char}

/-! ### Names as they are written -/

/-- The names in the object that a text holds, each as often as it is written there. There are none
when the text holds no object. -/
def writtenNames (text : List Char) : List String :=
  match dropBlanks text with
  | '\x7b' :: inner =>
    match foldElements '\x7d' (readItem (readPair (read (maxOpen - 1)))) [] inner with
    | .ok (members, _) => members.reverse.map Prod.fst
    | .error _ => []
  | _ => []

theorem writtenNames_of_enclosed (starts : dropBlanks text = '\x7b' :: inner)
    {members : List (String × Json)}
    (enclosed : Enclosed '\x7d' (readPair (read (maxOpen - 1))) inner members rest) :
    writtenNames text = members.map Prod.fst := by
  have folded : foldElements '\x7d' (readItem (readPair (read (maxOpen - 1)))) [] inner =
      .ok (members.reverse, rest) :=
    (foldElements_eq_ok (follows_readItem _) (shortens_readPair _) (by decide) trivial).mpr
      ⟨members, enclosed, foldlM_cons_ok members⟩
  simp only [writtenNames, starts, folded, List.reverse_reverse]

theorem writtenNames_of_noObject (noObject : ∀ inner, dropBlanks text ≠ '\x7b' :: inner) :
    writtenNames text = [] := by
  unfold writtenNames
  split
  · rename_i inner starts
    exact absurd starts (noObject inner)
  · rfl

/-! ### Records from text and from documents -/

namespace Layout

variable {Record : Type} {layout : Layout Record} {record : Record}

/-- Every member that a strict record takes belongs to one of its fields. -/
theorem known_of_foldlM (strict : layout.strict = true) {members : List (String × Json)}
    {state final : Record × List String}
    (taken : members.foldlM layout.takeMember state = .ok final) :
    ∀ member ∈ members, ∃ field ∈ layout.fields, field.name = member.1 := by
  induction members generalizing state with
  | nil => exact nofun
  | cons member members inductionHypothesis =>
    rw [List.foldlM_cons] at taken
    obtain ⟨next, memberTaken, taken⟩ := Traversal.bind_eq_ok.mp taken
    obtain ⟨field, _, found, _⟩ := (takeMember_eq_ok strict).mp memberTaken
    exact List.forall_mem_cons.mpr
      ⟨⟨field, Keyed.mem_of_find? found⟩, inductionHypothesis taken⟩

/-- Members whose merged object is accepted are distinct, unless the name of a field comes twice
among them. -/
theorem distinct_of_merged (streaming : layout.Streaming) {members : List (String × Json)}
    (once : ∀ field ∈ layout.fields, (members.map Prod.fst).count field.name ≤ 1)
    (decoded : layout.decoder.ofJson (.object (Keyed.ofList Prod.fst members)) = .ok record) :
    Keyed.Distinct Prod.fst members := by
  obtain ⟨final, taken, _⟩ := Traversal.bind_eq_ok.mp decoded
  refine List.nodup_iff_count.mpr fun name => ?_
  by_cases written : name ∈ members.map Prod.fst
  · -- Merging loses no name, so the name is one that the record knows.
    obtain ⟨member, held, rfl⟩ := List.mem_map.mp (Keyed.mem_map_ofList written)
    obtain ⟨field, known, same⟩ := known_of_foldlM streaming.strict taken member held
    rw [← same]
    exact once field known
  · rw [List.count_eq_zero_of_not_mem written]
    exact Nat.zero_le 1

/-- A record is taken off a text exactly where a document is read that decodes to it, unless the
text names one of its fields twice. -/
theorem read_eq_ok_iff (streaming : layout.Streaming) :
    layout.decoder.read maxOpen text = .ok (record, rest) ↔
      ∃ document, Json.read maxOpen text = .ok (document, rest) ∧
        (∀ field ∈ layout.fields, (writtenNames text).count field.name ≤ 1) ∧
        layout.decoder.ofJson document = .ok record := by
  by_cases isObject : ∃ inner, dropBlanks text = '\x7b' :: inner
  · obtain ⟨inner, starts⟩ := isObject
    constructor
    · intro read
      obtain ⟨members, enclosed, decoded⟩ := (read_object_eq_ok streaming starts).mp read
      have distinct := distinct_of_ofJson streaming decoded
      refine ⟨.object members, (Json.read_object_eq_ok starts).mpr ⟨members, enclosed, ?_⟩, ?_,
        decoded⟩
      · rw [Keyed.ofList_of_distinct _ distinct]
      · rw [writtenNames_of_enclosed starts enclosed]
        exact fun field _ => List.nodup_iff_count.mp distinct field.name
    · rintro ⟨document, read, once, decoded⟩
      obtain ⟨members, enclosed, rfl⟩ := (Json.read_object_eq_ok starts).mp read
      rw [writtenNames_of_enclosed starts enclosed] at once
      have distinct := distinct_of_merged streaming once decoded
      rw [Keyed.ofList_of_distinct _ distinct] at decoded
      exact (read_object_eq_ok streaming starts).mpr ⟨members, enclosed, decoded⟩
  · rw [not_exists] at isObject
    constructor
    · intro read
      obtain ⟨document, documentRead, decoded⟩ := exists_of_read streaming read
      refine ⟨document, documentRead, fun field _ => ?_, decoded⟩
      rw [writtenNames_of_noObject isObject]
      exact Nat.zero_le 1
    · rintro ⟨document, read, _, decoded⟩
      rcases read_cases read with ⟨less, inner, items, room, starts, enclosed, rfl⟩ |
        ⟨_, inner, _, _, starts, _, _⟩ | ⟨_, _, _, closed⟩
      · rw [room]
        exact (read_array_eq_ok streaming starts).mpr ⟨items, enclosed, decoded⟩
      · exact absurd starts (isObject inner)
      · cases document with
        | array items => cases closed
        | object members => cases closed
        | _ => cases decoded

/-- A whole text is read as a record exactly when it is a document that decodes to the record and
names none of its fields twice. -/
theorem ofText_eq_ok_iff (streaming : layout.Streaming) {whole : String} :
    layout.decoder.ofText whole = .ok record ↔
      ∃ document, Json.ofText whole = .ok document ∧
        (∀ field ∈ layout.fields, (writtenNames whole.toList).count field.name ≤ 1) ∧
        layout.decoder.ofJson document = .ok record := by
  unfold Decoder.ofText Decoder.ofChars Json.ofText
  constructor
  · intro read
    obtain ⟨⟨value, left⟩, valueRead, finished⟩ := Traversal.bind_eq_ok.mp read
    obtain ⟨_, blank, same⟩ := Traversal.bind_eq_ok.mp finished
    cases same
    obtain ⟨document, documentRead, once, decoded⟩ := (read_eq_ok_iff streaming).mp valueRead
    exact ⟨document, Traversal.bind_eq_ok.mpr
      ⟨_, documentRead, Traversal.bind_eq_ok.mpr ⟨(), blank, rfl⟩⟩, once, decoded⟩
  · rintro ⟨document, read, once, decoded⟩
    obtain ⟨⟨value, left⟩, valueRead, finished⟩ := Traversal.bind_eq_ok.mp read
    obtain ⟨_, blank, same⟩ := Traversal.bind_eq_ok.mp finished
    cases same
    exact Traversal.bind_eq_ok.mpr
      ⟨_, (read_eq_ok_iff streaming).mpr ⟨document, valueRead, once, decoded⟩,
        Traversal.bind_eq_ok.mpr ⟨(), blank, rfl⟩⟩

end Layout

end Json

end ListQuery
