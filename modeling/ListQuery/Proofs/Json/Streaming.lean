/-
This file proves that decoders read values straight from text as they read them
out of documents. A decoder streams when it takes a value off a text exactly where
a whole document is read that it decodes to this value. The combinators keep this,
and so do strict records, with one difference: a record straight from text sees
the members as they are written, while a document has already lost those whose
name comes again.
-/

import ListQuery.Json.Layout
import ListQuery.Proofs.Json.RoundTrip

namespace ListQuery

namespace Json

variable {Value Other : Type}

/-- A decoder takes a value off a text exactly where a document is read that it decodes to this
value. -/
def Decoder.Streams (decoder : Decoder Value) : Prop :=
  ∀ {depth text value rest}, decoder.read depth text = .ok (value, rest) ↔
    ∃ document, Json.read depth text = .ok (document, rest) ∧ decoder.ofJson document = .ok value

namespace Decoder

/-! ### Single values -/

theorem streams_whole (convert : Json → Except Fault Value) : (whole convert).Streams := by
  intro depth text value rest
  rw [whole, Traversal.bind_eq_ok]
  constructor
  · rintro ⟨⟨document, left⟩, documentRead, read⟩
    obtain ⟨result, converted, same⟩ := Traversal.bind_eq_ok.mp read
    cases same
    exact ⟨document, documentRead, converted⟩
  · rintro ⟨document, read, converted⟩
    exact ⟨(document, rest), read, Traversal.bind_eq_ok.mpr ⟨value, converted, rfl⟩⟩

theorem streams_members (convert : List (String × Json) → Except Fault Value) :
    (members convert).Streams := by
  intro depth text value rest
  constructor
  · intro read
    simp only [members] at read
    split at read
    · rename_i inner starts
      obtain ⟨⟨document, left⟩, documentRead, read⟩ := Traversal.bind_eq_ok.mp read
      rw [← starts, read_dropBlanks] at documentRead
      split at read
      · rename_i same
        cases same
        obtain ⟨result, converted, same⟩ := Traversal.bind_eq_ok.mp read
        cases same
        exact ⟨_, documentRead, converted⟩
      · cases read
    · cases read
  · rintro ⟨document, read, converted⟩
    simp only [members] at converted
    split at converted
    · obtain ⟨inner, starts⟩ := exists_of_read_object read
      rw [← read_dropBlanks, starts] at read
      simp only [members, starts]
      exact Traversal.bind_eq_ok.mpr ⟨_, read, Traversal.bind_eq_ok.mpr ⟨value, converted, rfl⟩⟩
    · cases converted

/-- A value that is accepted only out of documents that are no containers. -/
theorem streams_scalar {expected : Expected} {accept : Json → Except Fault Value}
    (refuses : ∀ document value, accept document = .ok value → document.opened = 0) :
    (scalar expected accept).Streams := by
  intro depth text value rest
  constructor
  · intro read
    simp only [scalar] at read
    split at read
    · cases read
    · cases read
    · rename_i noArray noObject
      obtain ⟨⟨document, left⟩, documentRead, read⟩ := Traversal.bind_eq_ok.mp read
      obtain ⟨result, accepted, same⟩ := Traversal.bind_eq_ok.mp read
      cases same
      exact ⟨document, (read_eq_readScalar noArray noObject).trans documentRead, accepted⟩
  · rintro ⟨document, read, accepted⟩
    have closed := refuses document value accepted
    rcases read_cases read with ⟨_, _, _, _, _, _, rfl⟩ | ⟨_, _, _, _, _, _, rfl⟩ |
      ⟨noArray, noObject, scalarRead, _⟩
    · cases closed
    · cases closed
    · simp only [scalar]
      exact Traversal.bind_eq_ok.mpr ⟨_, scalarRead,
        Traversal.bind_eq_ok.mpr ⟨value, accepted, rfl⟩⟩

theorem streams_word : word.Streams := by
  refine streams_scalar fun document value accepted => ?_
  split at accepted
  · rfl
  · cases accepted

theorem streams_string : string.Streams := by
  refine streams_scalar fun document value accepted => ?_
  split at accepted
  · rfl
  · cases accepted

/-! ### Combinations -/

theorem streams_map {decoder : Decoder Value} (streams : decoder.Streams)
    (change : Value → Other) : (decoder.map change).Streams := by
  intro depth text value rest
  simp only [map]
  rw [Traversal.bind_eq_ok]
  constructor
  · rintro ⟨⟨before, left⟩, read, same⟩
    cases same
    obtain ⟨document, documentRead, decoded⟩ := streams.mp read
    exact ⟨document, documentRead, Traversal.bind_eq_ok.mpr ⟨before, decoded, rfl⟩⟩
  · rintro ⟨document, documentRead, changed⟩
    obtain ⟨before, decoded, same⟩ := Traversal.bind_eq_ok.mp changed
    cases same
    exact ⟨(before, rest), streams.mpr ⟨document, documentRead, decoded⟩, rfl⟩

/-- What starts like null is read as null. -/
theorem read_of_null {depth : Nat} {text inner : List Char}
    (starts : dropBlanks text = 'n' :: inner) :
    Json.read depth text = readWord ['u', 'l', 'l'] .null inner := by
  rw [read_eq_readScalar, starts]
  · rfl
  · rw [starts]
    exact nofun
  · rw [starts]
    exact nofun

theorem exists_of_read_null {depth : Nat} {text rest : List Char}
    (read : Json.read depth text = .ok (.null, rest)) :
    ∃ inner, dropBlanks text = 'n' :: inner := by
  rcases read_cases read with ⟨_, _, _, _, _, _, same⟩ | ⟨_, _, _, _, _, _, same⟩ |
    ⟨_, _, scalarRead, _⟩
  · cases same
  · cases same
  · unfold readScalar at scalarRead
    split at scalarRead
    · rename_i inner starts
      exact ⟨inner, starts⟩
    · cases eq_of_readWord scalarRead
    · cases eq_of_readWord scalarRead
    · obtain ⟨_, _, same⟩ := Traversal.bind_eq_ok.mp scalarRead
      cases same
    · obtain ⟨_, _, numberRead⟩ := Traversal.bind_eq_ok.mp scalarRead
      obtain ⟨_, _, same⟩ := Traversal.bind_eq_ok.mp numberRead
      cases same

theorem ofJson_nullable {decoder : Decoder Value} {document : Json} {value : Option Value} :
    decoder.nullable.ofJson document = .ok value ↔
      document = .null ∧ value = none ∨
      document ≠ .null ∧ ∃ present, decoder.ofJson document = .ok present ∧
        value = some present := by
  cases document with
  | null =>
    constructor
    · intro same
      cases same
      exact .inl ⟨rfl, rfl⟩
    · rintro (⟨_, rfl⟩ | ⟨absent, _⟩)
      · rfl
      · exact absurd rfl absent
  | _ =>
    simp only [nullable]
    rw [Traversal.bind_eq_ok]
    constructor
    · rintro ⟨present, decoded, same⟩
      cases same
      exact .inr ⟨nofun, present, decoded, rfl⟩
    · rintro (⟨same, _⟩ | ⟨_, present, decoded, rfl⟩)
      · cases same
      · exact ⟨present, decoded, rfl⟩

theorem streams_nullable {decoder : Decoder Value} (streams : decoder.Streams) :
    decoder.nullable.Streams := by
  intro depth text value rest
  constructor
  · intro read
    simp only [nullable] at read
    split at read
    · rename_i inner starts
      obtain ⟨⟨document, left⟩, wordRead, same⟩ := Traversal.bind_eq_ok.mp read
      cases eq_of_readWord wordRead
      cases same
      exact ⟨.null, (read_of_null starts).trans wordRead, rfl⟩
    · rename_i noNull
      obtain ⟨⟨present, left⟩, presentRead, same⟩ := Traversal.bind_eq_ok.mp read
      cases same
      obtain ⟨document, documentRead, decoded⟩ := streams.mp presentRead
      rw [read_dropBlanks] at documentRead
      refine ⟨document, documentRead, ofJson_nullable.mpr (.inr ⟨?_, present, decoded, rfl⟩)⟩
      rintro rfl
      obtain ⟨inner, starts⟩ := exists_of_read_null documentRead
      exact noNull inner starts
  · rintro ⟨document, documentRead, decoded⟩
    rcases ofJson_nullable.mp decoded with ⟨rfl, rfl⟩ | ⟨notNull, present, presentDecoded, rfl⟩
    · obtain ⟨inner, starts⟩ := exists_of_read_null documentRead
      rw [read_of_null starts] at documentRead
      simp only [nullable, starts]
      exact Traversal.bind_eq_ok.mpr ⟨_, documentRead, rfl⟩
    · have noNull : ∀ inner, dropBlanks text ≠ 'n' :: inner := by
        intro inner starts
        rw [read_of_null starts] at documentRead
        exact notNull (eq_of_readWord documentRead)
      rw [← read_dropBlanks] at documentRead
      simp only [nullable]
      exact Traversal.bind_eq_ok.mpr
        ⟨_, streams.mpr ⟨document, documentRead, presentDecoded⟩, rfl⟩

/-! ### Lists -/

section Lists

variable {decoder : Decoder Value} {depth : Nat} {close : Char} {text after : List Char}
  {values : List Value}

theorem shortens_streams (streams : decoder.Streams) (depth : Nat) :
    Shortens (decoder.read depth) := by
  intro text value rest read
  obtain ⟨document, documentRead, _⟩ := streams.mp read
  exact shortens_read depth text document rest documentRead

/-- A series of values is a series of documents that decode to them. -/
theorem series_streams (streams : decoder.Streams) :
    Series close (decoder.read depth) text values after ↔
      ∃ items, Series close (Json.read depth) text items after ∧
        items.mapM decoder.ofJson = .ok values := by
  constructor
  · intro series
    induction series with
    | last read closed =>
      obtain ⟨document, documentRead, decoded⟩ := streams.mp read
      exact ⟨[document], .last documentRead closed,
        Traversal.mapM_cons_eq_ok.mpr ⟨_, _, decoded, rfl, rfl⟩⟩
    | more read separated others inductionHypothesis =>
      obtain ⟨document, documentRead, decoded⟩ := streams.mp read
      obtain ⟨items, series, othersDecoded⟩ := inductionHypothesis
      exact ⟨document :: items, .more documentRead separated series,
        Traversal.mapM_cons_eq_ok.mpr ⟨_, _, decoded, othersDecoded, rfl⟩⟩
  · rintro ⟨items, series, decoded⟩
    induction series generalizing values with
    | last read closed =>
      obtain ⟨value, others, itemDecoded, othersDecoded, rfl⟩ :=
        Traversal.mapM_cons_eq_ok.mp decoded
      cases othersDecoded
      exact .last (streams.mpr ⟨_, read, itemDecoded⟩) closed
    | more read separated others inductionHypothesis =>
      obtain ⟨value, others, itemDecoded, othersDecoded, rfl⟩ :=
        Traversal.mapM_cons_eq_ok.mp decoded
      exact .more (streams.mpr ⟨_, read, itemDecoded⟩) separated (inductionHypothesis othersDecoded)

theorem enclosed_streams (streams : decoder.Streams) :
    Enclosed close (decoder.read depth) text values after ↔
      ∃ items, Enclosed close (Json.read depth) text items after ∧
        items.mapM decoder.ofJson = .ok values := by
  constructor
  · intro enclosed
    cases enclosed with
    | empty closed => exact ⟨[], .empty closed, rfl⟩
    | nonempty starts unclosed series =>
      obtain ⟨items, series, decoded⟩ := (series_streams streams).mp series
      exact ⟨items, .nonempty starts unclosed series, decoded⟩
  · rintro ⟨items, enclosed, decoded⟩
    cases enclosed with
    | empty closed =>
      cases decoded
      exact .empty closed
    | nonempty starts unclosed series =>
      exact .nonempty starts unclosed ((series_streams streams).mpr ⟨items, series, decoded⟩)

end Lists

theorem streams_list {decoder : Decoder Value} (streams : decoder.Streams) :
    decoder.list.Streams := by
  intro depth text values rest
  constructor
  · intro read
    simp only [list] at read
    split at read
    · cases read
    · rename_i depth inner starts
      obtain ⟨⟨reversed, left⟩, valuesRead, same⟩ := Traversal.bind_eq_ok.mp read
      cases same
      obtain ⟨values, enclosed, folded⟩ :=
        enclosed_of_foldElements (follows_readItem _) trivial valuesRead
      rw [foldlM_cons_ok] at folded
      cases folded
      obtain ⟨items, itemsEnclosed, decoded⟩ := (enclosed_streams streams).mp enclosed
      refine ⟨.array items, (read_array_eq_ok starts).mpr ⟨items, itemsEnclosed, rfl⟩, ?_⟩
      rw [List.reverse_reverse]
      exact decoded
    · cases read
  · rintro ⟨document, read, decoded⟩
    simp only [list] at decoded
    split at decoded
    · rename_i items
      rcases read_cases read with ⟨less, inner, _, rfl, starts, enclosed, same⟩ |
        ⟨_, _, _, _, _, _, same⟩ | ⟨_, _, _, closed⟩
      · cases same
        simp only [list, starts]
        refine Traversal.bind_eq_ok.mpr ⟨(values.reverse, rest), ?_, ?_⟩
        · exact (foldElements_eq_ok (follows_readItem _) (shortens_streams streams less)
            (by decide) trivial).mpr
            ⟨values, (enclosed_streams streams).mpr ⟨items, enclosed, decoded⟩,
              foldlM_cons_ok values⟩
        · rw [List.reverse_reverse]
          rfl
      · cases same
      · cases closed
    · cases decoded

/-! ### Whole texts -/

/-- A value is read from the text of every document that decodes to it. -/
theorem ofText_text {decoder : Decoder Value} (streams : decoder.Streams) {document : Json}
    (wellFormed : document.WellFormed) (numbers : ∀ number ∈ document.numbers, number.ReadsBack)
    (shallow : document.opened ≤ maxOpen) {value : Value}
    (decoded : decoder.ofJson document = .ok value) :
    decoder.ofText document.text = .ok value := by
  have documentRead := readsBack_write wellFormed numbers shallow [] Text.stops_nil
  rw [List.append_nil] at documentRead
  have read := streams.mpr ⟨document, documentRead, decoded⟩
  rw [ofText, ofChars, text, String.toList_ofList]
  exact Traversal.bind_eq_ok.mpr ⟨_, read, rfl⟩

end Decoder

end Json

end ListQuery
