/-
This file proves that a query is read back from its text. Only its filter may
change on the way, and settles. A query that was itself read from a document has a
settled filter, and is written as a document that needs no more open containers
than the first one, so that it is read back as it is.
-/

import ListQuery.Query
import ListQuery.Proofs.Filter.Reading
import ListQuery.Proofs.Json.Records
import ListQuery.Proofs.Json.RoundTrip
import ListQuery.Proofs.Query.Parts

namespace ListQuery

namespace Query

variable {query : Query}

/-! ### The layout of queries -/

theorem streaming_layout : layout.Streaming := by
  refine ⟨rfl, ?_⟩
  simp only [layout, List.forall_mem_cons, List.not_mem_nil, false_implies, implies_true, and_true]
  exact ⟨Json.Layout.streams_optional Filter.streams_decoder,
    Json.Layout.streams_optional SortOrder.streams_decoder,
    Json.Layout.streams_optional Selection.streams_decoder,
    Json.Layout.streams_optional Count.streams_decoder,
    Json.Layout.streams_optional Count.streams_decoder,
    Json.Layout.streams_optional Count.streams_decoder⟩

theorem distinct_layout : Keyed.Distinct Json.Field.name layout.fields :=
  show ["where", "sort", "select", "limit", "skip", "page"].Nodup by decide

/-! ### Reading back -/

/-- What a query is read back as: the same with its filter settled. -/
def settled (query : Query) : Query :=
  { query with filter := query.filter.map Filter.settled }

/-- The filter of a query is one that builders make, if there is one. -/
def WellFormed (query : Query) : Prop :=
  ∀ filter, query.filter = some filter → filter.WellFormed

theorem check_eq_ok :
    query.check = .ok () ↔ ∀ filter, query.filter = some filter → filter.check = .ok () :=
  Traversal.optionForM_eq_ok

/-- A query is read back from its document with its filter settled. -/
theorem ofJson_toJson (wellFormed : query.WellFormed) (sendable : query.check = .ok ()) :
    decoder.ofJson query.toJson = .ok query.settled := by
  rw [check_eq_ok] at sendable
  have filterBack : ∀ filter, query.filter = some filter →
      filter.toJson ≠ .null ∧ Filter.decoder.ofJson filter.toJson = .ok filter.settled :=
    fun filter given => ⟨nofun, Traversal.mapError_eq_ok.mpr
      (Filter.ofJsonWithin_toJson (wellFormed filter given) (sendable filter given))⟩
  have rewrites : Json.Layout.Rewrites query layout.fields layout.initial
      { filter := query.filter.map Filter.settled
        sort := query.sort.map fun order => order
        select := query.select.map fun fields => fields
        limit := query.limit.map fun count => count
        skip := query.skip.map fun count => count
        page := query.page.map fun count => count } := by
    refine .optional filterBack rfl ?_
    refine .optional (fun order _ => ⟨nofun, SortOrder.ofJson_toJson order⟩) rfl ?_
    refine .optional (fun fields _ => ⟨nofun, Selection.ofJson_toJson fields⟩) rfl ?_
    refine .optional (fun count _ => ⟨nofun, Count.ofJson_toJson count⟩) rfl ?_
    refine .optional (fun count _ => ⟨nofun, Count.ofJson_toJson count⟩) rfl ?_
    exact .optional (fun count _ => ⟨nofun, Count.ofJson_toJson count⟩) rfl .done
  simp only [Option.map_id'] at rewrites
  exact Json.Layout.ofJson_encode distinct_layout (by decide) rewrites

/-! ### Reading back from text -/

/-- What is written for the parts of a query holds no key twice. -/
theorem parts_wellFormed (wellFormed : query.WellFormed) (sendable : query.check = .ok ()) :
    ∀ member ∈ Json.Layout.membersOf query layout.fields, member.2.WellFormed := by
  rw [check_eq_ok] at sendable
  rw [Json.Layout.forall_membersOf]
  simp only [layout, List.forall_mem_cons, List.not_mem_nil, false_implies, implies_true, and_true,
    Json.Layout.forall_encode_optional]
  refine ⟨fun filter given => ?_, fun order _ => order.toJson_wellFormed,
    fun fields _ => Selection.toJson_wellFormed fields, fun _ _ => trivial, fun _ _ => trivial,
    fun _ _ => trivial⟩
  exact Filter.toJson_wellFormed (wellFormed filter given) (sendable filter given)

/-- A query is read back from its text, whatever follows, with its filter settled. -/
theorem read_write (wellFormed : query.WellFormed) (sendable : query.check = .ok ())
    (numbers : ∀ number ∈ query.toJson.numbers, number.ReadsBack) {depth : Nat}
    (shallow : query.toJson.opened ≤ depth + 1) (rest : List Char) :
    decoder.read (depth + 1) (query.toJson.write ++ rest) = .ok (query.settled, rest) := by
  have toJson_eq : query.toJson = .object (Json.Layout.membersOf query layout.fields) := rfl
  rw [toJson_eq] at numbers shallow
  rw [Json.opened_object_le_iff] at shallow
  have each : ∀ member ∈ Json.Layout.membersOf query layout.fields,
      Json.ReadsBack (Json.read depth) Json.write member.2 := fun member held =>
    Json.readsBack_write (parts_wellFormed wellFormed sendable member held)
      (fun number inside => numbers number (Json.mem_numbers_object.mpr ⟨member, held, inside⟩))
      (shallow member held)
  have enclosed := Json.enclosed_writeMembers each rest
  rw [toJson_eq, Json.write, List.cons_append, List.append_assoc, List.singleton_append]
  exact (Json.Layout.read_object_eq_ok streaming_layout
    (Json.dropBlanks_of_head (by decide) _)).mpr
    ⟨_, enclosed, ofJson_toJson wellFormed sendable⟩

/-- A query is read back from its text as a whole, with its filter settled. -/
theorem ofChars_write (wellFormed : query.WellFormed) (sendable : query.check = .ok ())
    (numbers : ∀ number ∈ query.toJson.numbers, number.ReadsBack)
    (shallow : query.toJson.opened ≤ Json.maxOpen) :
    decoder.ofChars query.toJson.write = .ok query.settled := by
  have read := read_write wellFormed sendable numbers shallow []
  rw [List.append_nil] at read
  exact Traversal.bind_eq_ok.mpr ⟨_, read, rfl⟩

/-- Settling a query does not change what is written for it. -/
theorem toJson_settled (wellFormed : query.WellFormed) : query.settled.toJson = query.toJson := by
  have same : (query.filter.map Filter.settled).map Filter.toJson =
      query.filter.map Filter.toJson := by
    cases given : query.filter with
    | none => rfl
    | some filter => exact congrArg some (Filter.toJson_settled (wellFormed filter given))
  refine Json.Layout.encode_congr ?_
  simp only [layout, List.forall_mem_cons, List.not_mem_nil, false_implies, implies_true, and_true]
  exact ⟨same, rfl, rfl, rfl, rfl, rfl⟩

/-- A query that passes the check still does when it is settled. -/
theorem check_settled (wellFormed : query.WellFormed) (sendable : query.check = .ok ()) :
    query.settled.check = .ok () := by
  rw [check_eq_ok] at sendable ⊢
  intro settledFilter given
  obtain ⟨filter, held, rfl⟩ := Option.map_eq_some_iff.mp given
  exact Filter.check_settled (wellFormed filter held) (sendable filter held)

/-! ### Queries out of documents -/

/-- What holds of a query that was read out of a document with at most `bound + 1` containers open
at once. -/
structure ReadWithin (bound : Nat) (query : Query) : Prop where
  filter : ∀ filter, query.filter = some filter → filter.ReadWithin bound
  sort : ∀ order, query.sort = some order → 0 < bound
  select : ∀ fields, query.select = some fields → 0 < bound

theorem keeps_readWithin (bound : Nat) : layout.Keeps bound (ReadWithin bound) := by
  unfold Json.Layout.Keeps
  simp only [layout, List.forall_mem_cons, List.not_mem_nil, false_implies, implies_true, and_true]
  refine ⟨?_, ?_, ?_, ?_, ?_, ?_⟩
  · refine Json.Layout.keeps_optional fun partWellFormed partShallow decoded held => ?_
    exact ⟨fun filter given => Filter.readWithin_of_ofJson partWellFormed partShallow
      (decoded filter given), held.sort, held.select⟩
  · refine Json.Layout.keeps_optional fun _ partShallow decoded held => ?_
    exact ⟨held.filter, fun order given =>
      (SortOrder.opened_of_ofJson (decoded order given)).trans_le partShallow, held.select⟩
  · refine Json.Layout.keeps_optional fun _ partShallow decoded held => ?_
    exact ⟨held.filter, held.sort, fun fields given =>
      (Selection.opened_of_ofJson (decoded fields given)).trans_le partShallow⟩
  all_goals
    exact Json.Layout.keeps_optional fun _ _ _ held => ⟨held.filter, held.sort, held.select⟩

theorem readWithin_of_ofJson {bound : Nat} {document : Json} (wellFormed : document.WellFormed)
    (shallow : document.opened ≤ bound + 1) (read : decoder.ofJson document = .ok query) :
    query.ReadWithin bound :=
  Json.Layout.holds_of_ofJson streaming_layout ⟨nofun, nofun, nofun⟩ (keeps_readWithin bound)
    wellFormed shallow read

/-- The filter of a query that was read from a document passes the check. -/
theorem check_of_ofJson {document : Json} (wellFormed : document.WellFormed)
    (read : decoder.ofJson document = .ok query) : query.check = .ok () := by
  have keeps : layout.Keeps document.opened
      (fun query => ∀ filter, query.filter = some filter → filter.check = .ok ()) := by
    unfold Json.Layout.Keeps
    simp only [layout, List.forall_mem_cons, List.not_mem_nil, false_implies, implies_true,
      and_true]
    refine ⟨?_, ?_, ?_, ?_, ?_, ?_⟩
    · exact Json.Layout.keeps_optional fun partWellFormed _ decoded _ filter given =>
        (Filter.reread_of_ofJson partWellFormed (decoded filter given)).1
    all_goals
      exact Json.Layout.keeps_optional fun _ _ _ held => held
  rw [check_eq_ok]
  exact Json.Layout.holds_of_ofJson streaming_layout nofun keeps wellFormed (Nat.le_succ _) read

namespace ReadWithin

variable {bound : Nat}

theorem settled_eq (held : query.ReadWithin bound) : query.settled = query := by
  have same : query.filter.map Filter.settled = query.filter := by
    cases given : query.filter with
    | none => rfl
    | some filter => exact congrArg some (held.filter filter given).settled
  rw [settled, same]

theorem wellFormed (held : query.ReadWithin bound) : query.WellFormed :=
  fun filter given => (held.filter filter given).wellFormed

/-- What was read needs no more open containers when it is written again. -/
theorem opened_toJson_le (held : query.ReadWithin bound) : query.toJson.opened ≤ bound + 1 := by
  show (Json.object (Json.Layout.membersOf query layout.fields)).opened ≤ bound + 1
  rw [Json.opened_object_le_iff, Json.Layout.forall_membersOf fun value => value.opened ≤ bound]
  simp only [layout, List.forall_mem_cons, List.not_mem_nil, false_implies, implies_true, and_true,
    Json.Layout.forall_encode_optional]
  exact ⟨fun filter given => (held.filter filter given).shallow,
    fun order given => SortOrder.opened_toJson_le (held.sort order given),
    fun fields given => Selection.opened_toJson_le (held.select fields given),
    fun _ _ => Nat.zero_le _, fun _ _ => Nat.zero_le _, fun _ _ => Nat.zero_le _⟩

end ReadWithin

/-- A query that was read from a document is read again from what is written for it. -/
theorem reread_of_ofJson {document : Json} (wellFormed : document.WellFormed)
    (read : decoder.ofJson document = .ok query) :
    decoder.ofJson query.toJson = .ok query := by
  have held := readWithin_of_ofJson wellFormed (Nat.le_succ document.opened) read
  have back := ofJson_toJson held.wellFormed (check_of_ofJson wellFormed read)
  rwa [held.settled_eq] at back

end Query

end ListQuery
