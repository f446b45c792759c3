/-
This file reads containers off texts that are given element by element. An element
is a core with blanks around it, and elements have commas between them. A reader
that takes each core, whatever follows it, takes the whole container; and where the
reader of the elements is sure of every core, nothing else is read from such a text.
Both directions together describe what any container of the grammar is read as,
however its blanks are set.
-/

import ListQuery.Proofs.Json.RoundTrip

namespace ListQuery

namespace Json

variable {Value State : Type} {value : List Char → Except Fault (Value × List Char)}

/-! ### Blanks -/

/-- A text that consists of blanks. -/
def Blank (text : List Char) : Prop :=
  ∀ char ∈ text, isBlank char = true

theorem blank_nil : Blank [] := nofun

theorem dropBlanks_append {blanks : List Char} (blank : Blank blanks) (text : List Char) :
    dropBlanks (blanks ++ text) = dropBlanks text :=
  List.dropWhile_append_of_pos blank

/-- A number does not go on with a blank. -/
theorem extends_blank {char : Char} (blank : isBlank char = true) :
    Literal.extends char = false := by
  simp only [isBlank, Bool.or_eq_true, decide_eq_true_iff] at blank
  rcases blank with ((rfl | rfl) | rfl) | rfl <;> decide

/-- A text does not go on with more of a number when it does not do so behind its blanks. -/
theorem stops_of_dropBlanks {text : List Char}
    (stops : Text.Stops Literal.extends (dropBlanks text)) :
    Text.Stops Literal.extends text := by
  cases text with
  | nil => exact Text.stops_nil
  | cons char rest =>
    cases blank : isBlank char with
    | true => exact Text.stops_cons (extends_blank blank)
    | false => rwa [dropBlanks_of_head blank] at stops

theorem stops_of_blank {text : List Char} (blank : Blank text) :
    Text.Stops Literal.extends text := by
  refine stops_of_dropBlanks ?_
  rw [← List.append_nil text, dropBlanks_append blank]
  exact Text.stops_nil

/-! ### Taking a text -/

/-- A reader takes an item off a text, whatever follows the text except for more of a number. -/
def Takes (value : List Char → Except Fault (Value × List Char)) (text : List Char)
    (item : Value) : Prop :=
  ∀ rest, Text.Stops Literal.extends rest → value (text ++ rest) = .ok (item, rest)

/-- A reader is sure of a text: it takes an item off it whatever follows, or it never does. -/
def Decides (value : List Char → Except Fault (Value × List Char)) (text : List Char) : Prop :=
  ∀ rest item left, Text.Stops Literal.extends rest → value (text ++ rest) = .ok (item, left) →
    left = rest ∧ Takes value text item

/-- Blanks before an item count for nothing. -/
def SkipsBlanks (value : List Char → Except Fault (Value × List Char)) : Prop :=
  ∀ {blanks}, Blank blanks → ∀ text item rest,
    value (blanks ++ text) = .ok (item, rest) ↔ value text = .ok (item, rest)

theorem Takes.unique {text : List Char} {item other : Value} (takes : Takes value text item)
    (takesOther : Takes value text other) : item = other := by
  have same := (takes [] Text.stops_nil).symm.trans (takesOther [] Text.stops_nil)
  cases same
  rfl

/-- What is taken off a text is all that can be. -/
theorem Takes.decides {text : List Char} {item : Value} (takes : Takes value text item) :
    Decides value text := by
  intro rest other left stops read
  have same := (takes rest stops).symm.trans read
  cases same
  exact ⟨rfl, takes⟩

theorem skipsBlanks_of_dropBlanks (same : ∀ text, value (dropBlanks text) = value text) :
    SkipsBlanks value := by
  intro blanks blank text item rest
  rw [← same (blanks ++ text), dropBlanks_append blank, same]

/-! ### Elements -/

/-- An element of a container, with the blanks around it. -/
structure Padded where
  before : List Char
  core : List Char
  after : List Char
  blankBefore : Blank before
  blankAfter : Blank after

namespace Padded

/-- The text of an element. -/
def text (element : Padded) : List Char :=
  element.before ++ (element.core ++ element.after)

/-- An element without blanks. -/
def bare (core : List Char) : Padded where
  before := []
  core := core
  after := []
  blankBefore := blank_nil
  blankAfter := blank_nil

end Padded

/-- An element and those that follow it, with commas before these, up to the end of a container. -/
def elementsText (first : Padded) (others : List Padded) (ending : List Char) : List Char :=
  first.core ++ (first.after ++ (others.flatMap (fun element => ',' :: element.text) ++ ending))

section Containers

variable {close : Char} {first : Padded} {elements others : List Padded}
  {padding ending after left : List Char} {items : List Value}

theorem elementsText_cons (next : Padded) :
    elementsText first (next :: others) ending =
      first.core ++ (first.after ++ (',' :: (next.before ++ elementsText next others ending))) := by
  simp only [elementsText, List.flatMap_cons, Padded.text, List.cons_append, List.append_assoc]

theorem exists_elementsText {char : Char} {more : List Char} (leads : first.core = char :: more)
    (others : List Padded) (ending : List Char) :
    ∃ rest, elementsText first others ending = char :: rest := by
  rw [elementsText, leads]
  exact ⟨_, rfl⟩

theorem ne_close (closes : close = ']' ∨ close = '\x7d') {char : Char}
    (unclosed : char ≠ ']' ∧ char ≠ '\x7d') : char ≠ close := by
  rcases closes with rfl | rfl
  · exact unclosed.1
  · exact unclosed.2

theorem listed_cons :
    listed Padded.text (first :: others) ++ ending =
      first.before ++ elementsText first others ending := by
  simp only [listed, elementsText, Padded.text, List.append_assoc]

theorem length_le_flatMap (others : List Padded) :
    others.length ≤ (others.flatMap fun element => ',' :: element.text).length := by
  induction others with
  | nil => exact Nat.le_refl 0
  | cons next others inductionHypothesis =>
    rw [List.flatMap_cons, List.length_append, List.length_cons, List.length_cons]
    omega

/-- Each element has a character at least. -/
theorem length_lt_elementsText (starts : Starts first.core) :
    others.length < (elementsText first others ending).length := by
  obtain ⟨char, more, leads, _⟩ := starts
  have counted := length_le_flatMap others
  simp only [elementsText, leads, List.length_append, List.length_cons]
  omega

/-! ### What follows a core -/

/-- What follows the core of the last element is the closing bracket. -/
theorem dropBlanks_last (first : Padded) (ends : dropBlanks ending = close :: after) :
    dropBlanks (first.after ++ ending) = close :: after := by
  rw [dropBlanks_append first.blankAfter, ends]

/-- What follows the core of any other element is a comma. -/
theorem dropBlanks_comma (first : Padded) (rest : List Char) :
    dropBlanks (first.after ++ ',' :: rest) = ',' :: rest := by
  rw [dropBlanks_append first.blankAfter, dropBlanks_of_head (by decide)]

theorem stops_last (first : Padded) (closes : close = ']' ∨ close = '\x7d')
    (ends : dropBlanks ending = close :: after) :
    Text.Stops Literal.extends (first.after ++ ending) := by
  refine stops_of_dropBlanks ?_
  rw [dropBlanks_last first ends]
  exact Text.stops_cons (by rcases closes with rfl | rfl <;> decide)

theorem stops_comma (first : Padded) (rest : List Char) :
    Text.Stops Literal.extends (first.after ++ ',' :: rest) := by
  refine stops_of_dropBlanks ?_
  rw [dropBlanks_comma]
  exact Text.stops_cons (by decide)

theorem ne_comma (closes : close = ']' ∨ close = '\x7d') : close ≠ ',' := by
  rcases closes with rfl | rfl <;> decide

/-! ### From elements to containers -/

variable {valid : State → Prop} {step : State → List Char → Except Fault (State × List Char)}
  {take : State → Value → Except Fault State} {state final : State}

theorem foldMore_elements (follows : Follows valid step value take)
    (skipsBlanks : SkipsBlanks value) (closes : close = ']' ∨ close = '\x7d')
    (ends : dropBlanks ending = close :: after) {blanks : List Char} (blank : Blank blanks)
    (taken : List.Forall₂ (fun element item => Takes value element.core item) (first :: others)
      items)
    (held : valid state) (folded : items.foldlM take state = .ok final) {bound : Nat}
    (enough : others.length < bound) :
    foldMore close step bound state (blanks ++ elementsText first others ending) =
      .ok (final, after) := by
  induction others generalizing first items state bound blanks with
  | nil =>
    obtain ⟨bound, rfl⟩ : ∃ less, bound = less + 1 := ⟨bound - 1, by omega⟩
    obtain ⟨item, rest, takes, others, rfl⟩ := List.forall₂_cons_left_iff.mp taken
    cases others
    obtain ⟨next, itemTaken, same⟩ := Traversal.bind_eq_ok.mp folded
    cases same
    have read := (skipsBlanks blank _ _ _).mpr (takes _ (stops_last first closes ends))
    refine Traversal.bind_eq_ok.mpr
      ⟨_, (follows.step_eq_ok held).mpr ⟨item, read, itemTaken⟩, ?_⟩
    simp only [dropBlanks_last first ends]
    rw [if_neg (ne_comma closes), if_pos trivial]
  | cons next others inductionHypothesis =>
    obtain ⟨bound, rfl⟩ : ∃ less, bound = less + 1 := ⟨bound - 1, by omega⟩
    obtain ⟨item, rest, takes, othersTaken, rfl⟩ := List.forall₂_cons_left_iff.mp taken
    obtain ⟨between, itemTaken, folded⟩ := Traversal.bind_eq_ok.mp folded
    have read := (skipsBlanks blank _ _ _).mpr
      (takes _ (stops_comma first (next.before ++ elementsText next others ending)))
    rw [elementsText_cons]
    refine Traversal.bind_eq_ok.mpr
      ⟨_, (follows.step_eq_ok held).mpr ⟨item, read, itemTaken⟩, ?_⟩
    simp only [dropBlanks_comma]
    rw [if_pos trivial]
    exact inductionHypothesis next.blankBefore othersTaken (follows.valid_take held itemTaken)
      folded (Nat.lt_of_succ_lt_succ enough)

/-- Elements that are taken one by one are taken as a container. -/
theorem foldElements_of_takes (follows : Follows valid step value take)
    (skipsBlanks : SkipsBlanks value) (closes : close = ']' ∨ close = '\x7d')
    (ends : dropBlanks ending = close :: after) (blank : Blank padding)
    (starts : ∀ element ∈ elements, Starts element.core)
    (taken : List.Forall₂ (fun element item => Takes value element.core item) elements items)
    (held : valid state) (folded : items.foldlM take state = .ok final) :
    foldElements close step state (padding ++ (listed Padded.text elements ++ ending)) =
      .ok (final, after) := by
  unfold foldElements
  rw [dropBlanks_append blank]
  cases elements with
  | nil =>
    cases taken
    cases folded
    simp only [listed, List.nil_append, ends]
    rw [if_pos trivial]
  | cons first others =>
    obtain ⟨char, more, leads, solid, unclosed⟩ := starts first List.mem_cons_self
    obtain ⟨rest, whole⟩ := exists_elementsText leads others ending
    have enough : others.length < (elementsText first others ending).length :=
      length_lt_elementsText (starts first List.mem_cons_self)
    have read := foldMore_elements follows skipsBlanks closes ends blank_nil taken held folded
      enough
    rw [List.nil_append, whole] at read
    rw [listed_cons, dropBlanks_append first.blankBefore, whole, dropBlanks_of_head solid]
    simp only
    rw [if_neg (ne_close closes unclosed), read]

/-! ### From containers to elements -/

theorem takes_of_series (skipsBlanks : SkipsBlanks value) (closes : close = ']' ∨ close = '\x7d')
    (ends : dropBlanks ending = close :: after) {blanks : List Char} (blank : Blank blanks)
    (decides : ∀ element ∈ first :: others, Decides value element.core)
    (series : Series close value (blanks ++ elementsText first others ending) items left) :
    left = after ∧
      List.Forall₂ (fun element item => Takes value element.core item) (first :: others) items := by
  induction others generalizing first items blanks with
  | nil =>
    have sure := decides first List.mem_cons_self
    cases series with
    | last read closed =>
      obtain ⟨rfl, takes⟩ := sure _ _ _ (stops_last first closes ends)
        ((skipsBlanks blank _ _ _).mp read)
      rw [dropBlanks_last first ends] at closed
      cases closed
      exact ⟨rfl, .cons takes .nil⟩
    | more read separated others =>
      obtain ⟨rfl, takes⟩ := sure _ _ _ (stops_last first closes ends)
        ((skipsBlanks blank _ _ _).mp read)
      rw [dropBlanks_last first ends] at separated
      exact absurd (List.cons.inj separated).1 (ne_comma closes)
  | cons next others inductionHypothesis =>
    obtain ⟨sure, othersSure⟩ := List.forall_mem_cons.mp decides
    rw [elementsText_cons] at series
    cases series with
    | last read closed =>
      obtain ⟨rfl, takes⟩ := sure _ _ _ (stops_comma first _) ((skipsBlanks blank _ _ _).mp read)
      rw [dropBlanks_comma] at closed
      exact absurd (List.cons.inj closed).1.symm (ne_comma closes)
    | more read separated series =>
      obtain ⟨rfl, takes⟩ := sure _ _ _ (stops_comma first _) ((skipsBlanks blank _ _ _).mp read)
      rw [dropBlanks_comma] at separated
      cases separated
      obtain ⟨same, othersTaken⟩ := inductionHypothesis next.blankBefore othersSure series
      exact ⟨same, .cons takes othersTaken⟩

/-- A reader that is sure of all elements takes them one by one. -/
theorem takes_of_enclosed (skipsBlanks : SkipsBlanks value)
    (closes : close = ']' ∨ close = '\x7d') (ends : dropBlanks ending = close :: after)
    (blank : Blank padding) (starts : ∀ element ∈ elements, Starts element.core)
    (decides : ∀ element ∈ elements, Decides value element.core)
    (enclosed : Enclosed close value (padding ++ (listed Padded.text elements ++ ending)) items
      left) :
    left = after ∧
      List.Forall₂ (fun element item => Takes value element.core item) elements items := by
  cases elements with
  | nil =>
    rw [listed, List.nil_append] at enclosed
    cases enclosed with
    | empty closed =>
      rw [dropBlanks_append blank, ends] at closed
      cases closed
      exact ⟨rfl, .nil⟩
    | nonempty leads unclosed series =>
      rw [dropBlanks_append blank, ends] at leads
      exact absurd (List.cons.inj leads).1.symm unclosed
  | cons first others =>
    obtain ⟨char, more, leads, solid, unclosed⟩ := starts first List.mem_cons_self
    obtain ⟨rest, whole⟩ := exists_elementsText leads others ending
    have starting : dropBlanks (padding ++ (listed Padded.text (first :: others) ++ ending)) =
        char :: rest := by
      rw [listed_cons, dropBlanks_append blank, dropBlanks_append first.blankBefore, whole,
        dropBlanks_of_head solid]
    cases enclosed with
    | empty closed =>
      rw [starting] at closed
      exact absurd (List.cons.inj closed).1 (ne_close closes unclosed)
    | nonempty leads unclosed series =>
      rw [starting] at leads
      cases leads
      rw [← whole] at series
      exact takes_of_series skipsBlanks closes ends blank_nil decides series

/-- A container is taken exactly as its elements are, one by one. -/
theorem foldElements_listed (follows : Follows valid step value take)
    (skipsBlanks : SkipsBlanks value) (closes : close = ']' ∨ close = '\x7d')
    (ends : dropBlanks ending = close :: after) (blank : Blank padding)
    (starts : ∀ element ∈ elements, Starts element.core)
    (decides : ∀ element ∈ elements, Decides value element.core) (held : valid state) :
    foldElements close step state (padding ++ (listed Padded.text elements ++ ending)) =
        .ok (final, left) ↔
      left = after ∧ ∃ items,
        List.Forall₂ (fun element item => Takes value element.core item) elements items ∧
        items.foldlM take state = .ok final := by
  constructor
  · intro read
    obtain ⟨items, enclosed, folded⟩ := enclosed_of_foldElements follows held read
    obtain ⟨same, taken⟩ := takes_of_enclosed skipsBlanks closes ends blank starts decides enclosed
    exact ⟨same, items, taken, folded⟩
  · rintro ⟨rfl, items, taken, folded⟩
    exact foldElements_of_takes follows skipsBlanks closes ends blank starts taken held folded

end Containers

/-! ### Members -/

/-- A member of an object: its name in quotes and its value, each with the blanks around it. -/
structure Member where
  name : Padded
  value : Padded

namespace Member

/-- The text of a member from its name to its value. -/
def core (member : Member) : List Char :=
  member.name.core ++ (member.name.after ++ ':' :: (member.value.before ++ member.value.core))

/-- A member as an element of its object. -/
def element (member : Member) : Padded where
  before := member.name.before
  core := member.core
  after := member.value.after
  blankBefore := member.name.blankBefore
  blankAfter := member.value.blankAfter

end Member

theorem readName_dropBlanks (text : List Char) : readName (dropBlanks text) = readName text := by
  rw [readName, readName, dropBlanks_dropBlanks]

theorem readColon_append {blanks : List Char} (blank : Blank blanks) (rest : List Char) :
    readColon (blanks ++ ':' :: rest) = .ok rest := by
  rw [readColon, dropBlanks_append blank, dropBlanks_of_head (by decide)]
  rfl

theorem readName_write (name : String) (rest : List Char) :
    readName (Quoted.write name ++ rest) = .ok (name, rest) := by
  have back := Quoted.read?_write name rest
  rw [Quoted.write, List.cons_append, List.append_assoc, List.singleton_append, readName,
    dropBlanks_of_head (by decide)]
  exact Fault.require_eq_ok.mpr back

theorem skipsBlanks_read (depth : Nat) : SkipsBlanks (read depth) :=
  skipsBlanks_of_dropBlanks (read_dropBlanks depth)

section Pairs

variable {value : List Char → Except Fault (Json × List Char)}

theorem skipsBlanks_readPair : SkipsBlanks (readPair value) :=
  skipsBlanks_of_dropBlanks fun text => by rw [readPair, readPair, readName_dropBlanks]

/-- A member is taken when its name and its value are. -/
theorem takes_readPair {member : Member} {name : String} {document : Json}
    (named : ∀ rest, readName (member.name.core ++ rest) = .ok (name, rest))
    (skipsBlanks : SkipsBlanks value) (takes : Takes value member.value.core document) :
    Takes (readPair value) member.core (name, document) := by
  intro rest stops
  refine readPair_eq_ok.mpr
    ⟨member.name.after ++ ':' :: (member.value.before ++ (member.value.core ++ rest)),
      member.value.before ++ (member.value.core ++ rest), ?_, ?_, ?_⟩
  · rw [Member.core, List.append_assoc, List.append_assoc, List.cons_append, List.append_assoc]
    exact named _
  · exact readColon_append member.name.blankAfter _
  · exact (skipsBlanks member.value.blankBefore _ _ _).mpr (takes rest stops)

end Pairs

/-- A member as it is written, without blanks. -/
def Member.bare (member : String × Json) : Member where
  name := .bare (Quoted.write member.1)
  value := .bare member.2.write

/-- The elements of a written object are its members without blanks. -/
theorem writeMembers_eq_bare (members : List (String × Json)) :
    writeMembers members = listed Padded.text ((members.map Member.bare).map Member.element) := by
  have same : ∀ member, (Member.bare member).element.text = writeMember member := by
    intro member
    simp only [Member.element, Member.core, Member.bare, Padded.bare, Padded.text, writeMember,
      List.nil_append, List.append_nil]
  rw [writeMembers_eq_listed]
  cases members with
  | nil => rfl
  | cons first others => simp only [listed, List.map_cons, List.flatMap_map, same]

/-! ### Documents -/

section Documents

variable {depth : Nat} {elements : List Padded} {padding ending after left : List Char}
  {document : Json}

/-- An array is read when its elements are taken. -/
theorem read_array_of_takes (ends : dropBlanks ending = ']' :: after) (blank : Blank padding)
    (starts : ∀ element ∈ elements, Starts element.core) {items : List Json}
    (taken : List.Forall₂ (fun element item => Takes (read depth) element.core item) elements
      items) :
    read (depth + 1) ('[' :: (padding ++ (listed Padded.text elements ++ ending))) =
      .ok (.array items, after) := by
  have folded := foldElements_of_takes (follows_readItem (read depth)) (skipsBlanks_read depth)
    (.inl rfl) ends blank starts taken trivial (foldlM_cons_ok items)
  rw [read, dropBlanks_of_head (by decide)]
  refine Traversal.bind_eq_ok.mpr ⟨_, folded, ?_⟩
  show Except.ok (array items.reverse.reverse, after) = _
  rw [List.reverse_reverse]

/-- An object is read when its members are taken, and the last one of each name counts. -/
theorem read_object_of_takes (ends : dropBlanks ending = '\x7d' :: after) (blank : Blank padding)
    (starts : ∀ element ∈ elements, Starts element.core) {members : List (String × Json)}
    (taken : List.Forall₂ (fun element member => Takes (readPair (read depth)) element.core member)
      elements members) :
    read (depth + 1) ('\x7b' :: (padding ++ (listed Padded.text elements ++ ending))) =
      .ok (.object (Keyed.ofList Prod.fst members), after) := by
  have folded := foldElements_of_takes (follows_readMember (read depth)) skipsBlanks_readPair
    (.inr rfl) ends blank starts taken trivial (foldlM_put_ok members)
  rw [read, dropBlanks_of_head (by decide)]
  exact Traversal.bind_eq_ok.mpr ⟨_, folded, rfl⟩

end Documents

end Json

end ListQuery
