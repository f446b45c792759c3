/-
This file proves that the compact text of a document determines the document, and
where it ends in a longer text. Nothing is read back here, so documents may nest to
any depth and objects may hold a name twice. A number could go on with more digits,
so what follows a document must not look like more of a number; every other text
shows by itself where it ends. That no two numbers have one text is left to what
writes them.
-/

import ListQuery.Proofs.Json.RoundTrip

namespace ListQuery

/-! ### The texts of numbers -/

namespace Number

/-- The characters that the texts of numbers are made of. -/
def inText (char : Char) : Bool :=
  char.isDigit || char == '-' || char == '.' || char == 'e' || char == '+'

/-- A text that a number may have: it is not empty, and holds such characters only. -/
structure Numeral (text : List Char) : Prop where
  nonempty : text ≠ []
  inText : ∀ char ∈ text, inText char = true

theorem numeral_ofNat (number : Nat) : Numeral (Digits.ofNat number) := by
  refine ⟨Nat.toDigits_ne_nil, fun char member => ?_⟩
  simp only [inText, Digits.isDigit_of_mem_ofNat number char member, Bool.true_or]

theorem numeral_minus {text : List Char} (numeral : Numeral text) : Numeral ('-' :: text) :=
  ⟨List.cons_ne_nil _ _, List.forall_mem_cons.mpr ⟨by decide, numeral.inText⟩⟩

theorem inText_replicate (count : Nat) : ∀ char ∈ List.replicate count '0', inText char = true := by
  intro char member
  rw [List.eq_of_mem_replicate member]
  decide

variable {digits : List Char}

theorem numeral_positionalText (numeral : Numeral digits) (exponent : Int) :
    Numeral (positionalText digits exponent) := by
  simp only [positionalText]
  split
  · refine ⟨by simp, ?_⟩
    simp only [List.forall_mem_append, List.forall_mem_cons]
    exact ⟨⟨numeral.inText, inText_replicate _⟩, by decide, by decide, nofun⟩
  split
  · refine ⟨by simp, ?_⟩
    simp only [List.forall_mem_append, List.forall_mem_cons]
    exact ⟨fun char member => numeral.inText char (List.mem_of_mem_take member), by decide,
      fun char member => numeral.inText char (List.mem_of_mem_drop member)⟩
  · refine ⟨by simp, ?_⟩
    simp only [List.forall_mem_append, List.forall_mem_cons]
    exact ⟨by decide, by decide, inText_replicate _, numeral.inText⟩

theorem numeral_scientificText (numeral : Numeral digits) (exponent : Int) :
    Numeral (scientificText digits exponent) := by
  have sign : inText (if exponent < 0 then '-' else '+') = true := by split <;> decide
  refine ⟨by simp [scientificText], ?_⟩
  simp only [scientificText, List.forall_mem_append, List.forall_mem_cons]
  refine ⟨⟨fun char member => numeral.inText char (List.mem_of_mem_take member), ?_⟩,
    by decide, sign, (numeral_ofNat _).inText⟩
  -- The fraction is left out when there is no further digit.
  split
  · exact List.forall_mem_nil _
  · exact List.forall_mem_cons.mpr ⟨by decide, fun char member =>
      numeral.inText char (List.mem_of_mem_drop member)⟩

theorem numeral_text (number : Number) : Numeral number.text := by
  cases number with
  | integer value inRange =>
    rw [text, Digits.ofInt]
    split
    · exact numeral_minus (numeral_ofNat _)
    · exact numeral_ofNat _
  | double value =>
    have unsigned : ∀ (digits : Nat) (exponent leading : Int),
        Numeral (if positional leading then positionalText (Digits.ofNat digits) exponent
          else scientificText (Digits.ofNat digits) leading) := by
      intro digits exponent leading
      split
      · exact numeral_positionalText (numeral_ofNat _) _
      · exact numeral_scientificText (numeral_ofNat _) _
    simp only [text, doubleText]
    split
    · exact numeral_minus (unsigned _ _ _)
    · exact unsigned _ _ _

end Number

namespace Json

/-! ### Texts that determine what they stand for -/

section Determines

variable {Value View : Type}

/-- The texts of two values, each with something behind it that `ends` a text, are the same only
when the values have the same view and the same is behind them. -/
def Determines (ends : List Char → Prop) (write : Value → List Char) (view : Value → View)
    (first second : Value) : Prop :=
  ∀ rest other, ends rest → ends other → write first ++ rest = write second ++ other →
    view first = view second ∧ rest = other

variable {ends closes : List Char → Prop} {write : Value → List Char} {view : Value → View}

/-- What comes behind an element of a list: the end of the list, or a comma and more elements. -/
structure Separates (ends closes : List Char → Prop) : Prop where
  comma : ∀ text, ends (',' :: text)
  close : ∀ text, closes text → ends text
  noComma : ∀ text, ¬closes (',' :: text)

theorem Separates.ends_more (separates : Separates ends closes) (write : Value → List Char)
    (items : List Value) {rest : List Char} (closed : closes rest) :
    ends (items.flatMap (fun item => ',' :: write item) ++ rest) := by
  cases items with
  | nil => exact separates.close rest closed
  | cons item items => exact separates.comma _

/-- The elements behind the first one are determined when each of them is. -/
theorem Separates.determines_more (separates : Separates ends closes) {firsts seconds : List Value}
    (each : ∀ first ∈ firsts, ∀ second ∈ seconds, Determines ends write view first second) :
    Determines closes (List.flatMap fun item => ',' :: write item) (List.map view) firsts
      seconds := by
  intro rest other closed otherClosed same
  induction firsts generalizing seconds with
  | nil =>
    cases seconds with
    | nil => exact ⟨rfl, same⟩
    | cons second seconds =>
      rw [show rest = _ from same] at closed
      exact absurd closed (separates.noComma _)
  | cons first firsts inductionHypothesis =>
    cases seconds with
    | nil =>
      rw [show other = _ from same.symm] at otherClosed
      exact absurd otherClosed (separates.noComma _)
    | cons second seconds =>
      rw [List.flatMap_cons, List.flatMap_cons, List.append_assoc, List.append_assoc,
        List.cons_append, List.cons_append] at same
      obtain ⟨sameView, others⟩ := each first List.mem_cons_self second List.mem_cons_self _ _
        (separates.ends_more write firsts closed) (separates.ends_more write seconds otherClosed)
        (List.cons.inj same).2
      obtain ⟨sameViews, sameRest⟩ := inductionHypothesis (fun first member second held =>
        each first (List.mem_cons_of_mem _ member) second (List.mem_cons_of_mem _ held)) others
      exact ⟨List.cons_eq_cons.mpr ⟨sameView, sameViews⟩, sameRest⟩

/-- A list is determined when each of its elements is, and when no element could be the end of a
list. -/
theorem Separates.determines_listed (separates : Separates ends closes)
    {firsts seconds : List Value}
    (unclosed : ∀ item, item ∈ firsts ∨ item ∈ seconds → ∀ rest, ¬closes (write item ++ rest))
    (each : ∀ first ∈ firsts, ∀ second ∈ seconds, Determines ends write view first second) :
    Determines closes (listed write) (List.map view) firsts seconds := by
  intro rest other closed otherClosed same
  cases firsts with
  | nil =>
    cases seconds with
    | nil => exact ⟨rfl, same⟩
    | cons second seconds =>
      rw [listed, listed, List.nil_append, List.append_assoc] at same
      rw [same] at closed
      exact absurd closed (unclosed second (.inr List.mem_cons_self) _)
  | cons first firsts =>
    cases seconds with
    | nil =>
      rw [listed, listed, List.nil_append, List.append_assoc] at same
      rw [← same] at otherClosed
      exact absurd otherClosed (unclosed first (.inl List.mem_cons_self) _)
    | cons second seconds =>
      -- With one more comma in front, the elements are those behind some other element.
      have behind : (first :: firsts).flatMap (fun item => ',' :: write item) ++ rest =
          (second :: seconds).flatMap (fun item => ',' :: write item) ++ other := by
        rw [List.flatMap_cons, List.flatMap_cons, List.cons_append, List.cons_append]
        exact congrArg (List.cons ',') same
      exact separates.determines_more each rest other closed otherClosed behind

end Determines

/-! ### Kinds of documents -/

/-- What the first character of a text says about its document. -/
inductive Kind where
  | null
  | boolean (flag : Bool)
  | number
  | string
  | array
  | object

/-- The kind of document that a first character marks. -/
def Kind.ofChar? (char : Char) : Option Kind :=
  if Number.inText char then some .number
  else
    match char with
    | 'n' => some .null
    | 't' => some (.boolean true)
    | 'f' => some (.boolean false)
    | '"' => some .string
    | '[' => some .array
    | '\x7b' => some .object
    | _ => none

/-- The kind of a document. -/
def kind : Json → Kind
  | .null => .null
  | .boolean flag => .boolean flag
  | .number _ => .number
  | .string _ => .string
  | .array _ => .array
  | .object _ => .object

theorem exists_of_write (document : Json) :
    ∃ char others, document.write = char :: others ∧
      Kind.ofChar? char = some document.kind := by
  cases document with
  | null => exact ⟨_, _, rfl, rfl⟩
  | boolean flag => cases flag <;> exact ⟨_, _, rfl, rfl⟩
  | string text => exact ⟨_, _, rfl, rfl⟩
  | array items => exact ⟨_, _, rfl, rfl⟩
  | object members => exact ⟨_, _, rfl, rfl⟩
  | number value =>
    obtain ⟨nonempty, inText⟩ := value.numeral_text
    obtain ⟨char, others, leads⟩ := List.exists_cons_of_ne_nil nonempty
    refine ⟨char, others, leads, if_pos (inText char ?_)⟩
    rw [leads]
    exact List.mem_cons_self

/-- Texts that start with documents of two kinds are not the same. -/
theorem kind_eq_of_write {first second : Json} {rest other : List Char}
    (same : first.write ++ rest = second.write ++ other) : first.kind = second.kind := by
  obtain ⟨char, others, leads, kind⟩ := first.exists_of_write
  obtain ⟨otherChar, otherOthers, otherLeads, otherKind⟩ := second.exists_of_write
  rw [leads, otherLeads] at same
  rw [(List.cons.inj same).1, otherKind] at kind
  exact (Option.some.inj kind).symm

/-- No document is written with a first character that marks none. -/
theorem write_ne_of_unmarked {char : Char} (unmarked : Kind.ofChar? char = none)
    (document : Json) (rest more : List Char) : document.write ++ rest ≠ char :: more := by
  intro same
  obtain ⟨first, others, leads, kind⟩ := document.exists_of_write
  rw [leads] at same
  rw [(List.cons.inj same).1, unmarked] at kind
  cases kind

/-! ### Documents -/

/-- What may come behind a document: anything that is not more of a number. -/
abbrev Ends : List Char → Prop :=
  Text.Stops Number.inText

/-- A text that starts with a closing bracket. -/
def Closes (close : Char) (text : List Char) : Prop :=
  ∃ more, text = close :: more

theorem separates_ends {close : Char} (unmarked : Kind.ofChar? close = none)
    (noComma : close ≠ ',') : Separates Ends (Closes close) where
  comma _ := Text.stops_cons (by decide)
  close := by
    rintro _ ⟨more, rfl⟩
    refine Text.stops_cons ?_
    unfold Kind.ofChar? at unmarked
    split at unmarked
    · cases unmarked
    · rename_i outside
      exact Bool.eq_false_iff.mpr outside
  noComma := by
    rintro _ ⟨more, same⟩
    exact noComma (List.cons.inj same).1.symm

/-- A string in quotes is determined, whatever is behind it. -/
theorem quoted_unique {first second : String} {rest other : List Char}
    (same : Quoted.write first ++ rest = Quoted.write second ++ other) :
    first = second ∧ rest = other := by
  rw [Quoted.write, Quoted.write, List.cons_append, List.cons_append, List.append_assoc,
    List.append_assoc, List.singleton_append, List.singleton_append] at same
  have back := Quoted.read?_write first rest
  rw [(List.cons.inj same).2, Quoted.read?_write] at back
  cases back
  exact ⟨rfl, rfl⟩

/-- Different numbers in two documents have different texts. -/
def NumbersApart (first second : Json) : Prop :=
  ∀ number ∈ first.numbers, ∀ another ∈ second.numbers,
    number.text = another.text → number = another

theorem NumbersApart.parts {first second part otherPart : Json} (apart : NumbersApart first second)
    (within : ∀ number ∈ part.numbers, number ∈ first.numbers)
    (otherWithin : ∀ number ∈ otherPart.numbers, number ∈ second.numbers) :
    NumbersApart part otherPart :=
  fun number inside another found =>
    apart number (within number inside) another (otherWithin another found)

theorem numbersApart_of_nil {first second : Json} (none : first.numbers = []) :
    NumbersApart first second := by
  intro number inside
  rw [none] at inside
  cases inside

theorem determines_member {first second : String × Json}
    (value : Determines Ends write id first.2 second.2) :
    Determines Ends writeMember id first second := by
  intro rest other ends otherEnds same
  rw [writeMember, writeMember, List.append_assoc, List.append_assoc, List.cons_append,
    List.cons_append] at same
  obtain ⟨sameName, others⟩ := quoted_unique same
  obtain ⟨sameValue, sameRest⟩ := value rest other ends otherEnds (List.cons.inj others).2
  exact ⟨Prod.ext sameName sameValue, sameRest⟩

theorem determines_array {firsts seconds : List Json}
    (each : ∀ first ∈ firsts, ∀ second ∈ seconds, Determines Ends write id first second) :
    Determines Ends write id (.array firsts) (.array seconds) := by
  intro rest other _ _ same
  rw [write, write, writeItems_eq_listed, writeItems_eq_listed, List.cons_append,
    List.cons_append, List.append_assoc, List.append_assoc, List.singleton_append,
    List.singleton_append] at same
  have separates : Separates Ends (Closes ']') := separates_ends rfl (by decide)
  obtain ⟨sameItems, sameRest⟩ := separates.determines_listed
    (fun item _ rest closes => closes.elim (write_ne_of_unmarked rfl item rest)) each
    _ _ ⟨rest, rfl⟩ ⟨other, rfl⟩ (List.cons.inj same).2
  rw [List.map_id, List.map_id] at sameItems
  exact ⟨congrArg Json.array sameItems, (List.cons.inj sameRest).2⟩

theorem determines_object {firsts seconds : List (String × Json)}
    (each : ∀ first ∈ firsts, ∀ second ∈ seconds, Determines Ends write id first.2 second.2) :
    Determines Ends write id (.object firsts) (.object seconds) := by
  intro rest other _ _ same
  rw [write, write, writeMembers_eq_listed, writeMembers_eq_listed, List.cons_append,
    List.cons_append, List.append_assoc, List.append_assoc, List.singleton_append,
    List.singleton_append] at same
  have separates : Separates Ends (Closes '\x7d') := separates_ends rfl (by decide)
  obtain ⟨sameMembers, sameRest⟩ := separates.determines_listed
    (fun member _ rest closes => closes.elim fun more closed =>
      absurd (List.cons.inj closed).1 (by decide))
    (fun first member second held => determines_member (each first member second held))
    _ _ ⟨rest, rfl⟩ ⟨other, rfl⟩ (List.cons.inj same).2
  rw [List.map_id, List.map_id] at sameMembers
  exact ⟨congrArg Json.object sameMembers, (List.cons.inj sameRest).2⟩

/-- The text of a document determines the document, however deep it nests. -/
theorem determines_write {first second : Json} (apart : NumbersApart first second) :
    Determines Ends write id first second := by
  -- The first document alone bounds the depth, as the second one is of the same kind all the way.
  induction bound : first.opened using Nat.strongRecOn generalizing first second with
  | ind opened inductionHypothesis =>
    intro rest other ends otherEnds same
    have sameKind := kind_eq_of_write same
    cases first with
    | null =>
      cases second with
      | null => exact ⟨rfl, List.append_cancel_left same⟩
      | _ => cases sameKind
    | boolean flag =>
      cases second with
      | boolean flag =>
        cases sameKind
        exact ⟨rfl, List.append_cancel_left same⟩
      | _ => cases sameKind
    | number value =>
      cases second with
      | number another =>
        obtain ⟨sameText, sameRest⟩ := Text.run_unique value.numeral_text.inText
          another.numeral_text.inText ends otherEnds same
        have sameNumber := apart value (List.mem_singleton_self value) another
          (List.mem_singleton_self another) sameText
        exact ⟨congrArg Json.number sameNumber, sameRest⟩
      | _ => cases sameKind
    | string text =>
      cases second with
      | string another =>
        obtain ⟨sameText, sameRest⟩ := quoted_unique same
        exact ⟨congrArg Json.string sameText, sameRest⟩
      | _ => cases sameKind
    | array items =>
      cases second with
      | array others =>
        refine determines_array (fun item member another held => ?_) rest other ends otherEnds same
        refine inductionHypothesis item.opened (bound ▸ opened_lt_array member) ?_ rfl
        exact apart.parts (fun _ inside => mem_numbers_array.mpr ⟨item, member, inside⟩)
          fun _ inside => mem_numbers_array.mpr ⟨another, held, inside⟩
      | _ => cases sameKind
    | object members =>
      cases second with
      | object others =>
        refine determines_object (fun first member second held => ?_) rest other ends otherEnds
          same
        refine inductionHypothesis first.2.opened (bound ▸ opened_lt_object member) ?_ rfl
        exact apart.parts (fun _ inside => mem_numbers_object.mpr ⟨first, member, inside⟩)
          fun _ inside => mem_numbers_object.mpr ⟨second, held, inside⟩
      | _ => cases sameKind

/-- Different documents have different texts. -/
theorem eq_of_text {first second : Json} (apart : NumbersApart first second)
    (same : first.text = second.text) : first = second := by
  have sameChars := congrArg String.toList same
  rw [text, text, String.toList_ofList, String.toList_ofList, ← List.append_nil first.write,
    ← List.append_nil second.write] at sameChars
  exact (determines_write apart [] [] Text.stops_nil Text.stops_nil sameChars).1

end Json

end ListQuery
