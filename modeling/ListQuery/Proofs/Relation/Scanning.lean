/-
This file proves that a query is cut out of the bytes of an input exactly where it is
cut out of the characters. The scan of the bytes knows only marks of ASCII, and the
bytes of other characters are none of these, so both scans stop behind the same
bracket. The count of open brackets is never taken down from zero, because the scan
starts at a brace and stops when that brace is closed.
-/

import ListQuery.Proofs.Relation.Bytes
import ListQuery.Proofs.Relation.Grammar

namespace ListQuery

namespace Outline

/-! ### What a run does -/

/-- Something that a run may do: its positions and pieces keep to characters, no count falls below
zero, and its loop and its recursion go forward. -/
def Event.Safe (input : String) : Event → Prop
  | .moved position => Boundary input position
  | .sliced start stop => start ≤ stop ∧ Boundary input start ∧ Boundary input stop
  | .closed opened => 0 < opened
  | .turned start stop => start < stop
  | .entered start inner => start < inner

/-- A run that stands at a character and has done nothing that it may not. -/
structure Cursor.Sound (input : String) (cursor : Cursor) : Prop where
  boundary : Boundary input cursor.position
  safe : ∀ event ∈ cursor.log, event.Safe input

theorem Cursor.Sound.noted {input : String} {cursor : Cursor} {event : Event}
    (sound : cursor.Sound input) (safe : event.Safe input) :
    Cursor.Sound input ⟨cursor.position, event :: cursor.log⟩ :=
  ⟨sound.boundary, List.forall_mem_cons.mpr ⟨safe, sound.safe⟩⟩

theorem Cursor.Sound.moved {input : String} {cursor : Cursor} {position : Nat}
    (sound : cursor.Sound input) (boundary : Boundary input position) :
    Cursor.Sound input ⟨position, .moved position :: cursor.log⟩ :=
  ⟨boundary, List.forall_mem_cons.mpr ⟨boundary, sound.safe⟩⟩

section Outcomes

variable {Value Other : Type} {input : String} {cursor : Cursor} {position final : Nat}

/-- A run comes to a value or a fault at a position, and is sound there. It comes to neither when it
panics or does not finish. -/
inductive Comes (input : String) :
    EStateM.Result Halt Cursor Value → Except QueryFault Value → Nat → Prop
  | ok {value : Value} {position : Nat} {log : List Event}
      (sound : Cursor.Sound input ⟨position, log⟩) :
      Comes input (.ok value ⟨position, log⟩) (.ok value) position
  | error {fault : QueryFault} {position : Nat} {log : List Event}
      (sound : Cursor.Sound input ⟨position, log⟩) :
      Comes input (.error (.fault fault) ⟨position, log⟩) (.error fault) position

variable {run : Run Value} {next : Value → Run Other} {value : Value} {fault : QueryFault}
  {outcome : Except QueryFault Other}

/-- A run goes on from the value that its first part comes to. -/
theorem Comes.bind (first : Comes input (run cursor) (.ok value) position)
    (second : ∀ log, Cursor.Sound input ⟨position, log⟩ →
      Comes input (next value ⟨position, log⟩) outcome final) :
    Comes input ((run >>= next) cursor) outcome final := by
  show Comes input (EStateM.bind run next cursor) outcome final
  unfold EStateM.bind
  generalize run cursor = result at first
  cases first with
  | ok sound => exact second _ sound

/-- A run stops at the fault that its first part comes to. -/
theorem Comes.stop (first : Comes input (run cursor) (.error fault) position) :
    Comes input ((run >>= next) cursor) (.error fault) position := by
  show Comes input (EStateM.bind run next cursor) _ position
  unfold EStateM.bind
  generalize run cursor = result at first
  cases first with
  | error sound => exact .error sound

theorem Comes.eq_ok {result : EStateM.Result Halt Cursor Value}
    (comes : Comes input result (.ok value) position) :
    ∃ log, result = .ok value ⟨position, log⟩ := by
  cases comes with
  | @ok _ _ log _ => exact ⟨log, rfl⟩

theorem Comes.eq_error {result : EStateM.Result Halt Cursor Value}
    (comes : Comes input result (.error fault) position) :
    ∃ log, result = .error (.fault fault) ⟨position, log⟩ := by
  cases comes with
  | @error _ _ log _ => exact ⟨log, rfl⟩

theorem comes_slice {piece rest : List Char} {start : Nat}
    (stands : StandsBefore input start (piece ++ rest)) (sound : cursor.Sound input) :
    Comes input (Run.slice input start (start + byteCount piece) cursor)
      (.ok (String.ofList piece)) cursor.position := by
  rw [stands.slice cursor]
  exact .ok (sound.noted
    ⟨Nat.le_add_right _ _, stands.boundary, stands.onward.boundary⟩)

end Outcomes

/-! ### Single bytes -/

/-- The scan behind a character that means nothing to it. -/
def Scan.passed (scan : Scan) : Scan :=
  match scan.place with
  | .escaped => { scan with place := .quoted }
  | _ => scan

theorem passed_passed (scan : Scan) : scan.passed.passed = scan.passed := by
  obtain ⟨place, opened⟩ := scan
  cases place <;> rfl

/-- A character above ASCII means nothing to the scan. -/
theorem step_high {char : Char} (high : 128 ≤ char.toNat) (scan : Scan) :
    scan.step char = some scan.passed := by
  have other : ∀ mark : Char, mark.toNat < 128 → char ≠ mark := by
    rintro _ ascii rfl
    exact Nat.not_lt.mpr high ascii
  obtain ⟨place, opened⟩ := scan
  cases place <;> simp [Scan.step, Scan.passed, other]

/-- A scan inside of brackets stays there, unless it stops. -/
theorem opened_of_step {scan next : Scan} {char : Char} (inside : 0 < scan.opened)
    (stepped : scan.step char = some next) : 0 < next.opened := by
  obtain ⟨place, opened⟩ := scan
  unfold Scan.step at stepped
  cases place with
  | escaped =>
    cases stepped
    exact inside
  | quoted =>
    simp only at stepped
    repeat' split at stepped
    all_goals
      cases stepped
      exact inside
  | between =>
    simp only at stepped inside
    repeat' split at stepped
    all_goals cases stepped <;> dsimp only <;> omega

section Bytes

variable {input : String} {cursor : Cursor} {scan : Scan}

theorem scanByte_high {byte : UInt8} (high : 128 ≤ byte.toNat) :
    Run.scanByte scan byte cursor = .ok (some scan.passed) cursor := by
  have other : ∀ mark : Char, mark.toNat < 128 → byte ≠ mark.toUInt8 := by
    rintro mark ascii rfl
    rw [toNat_toUInt8 ascii] at high
    exact Nat.not_lt.mpr high ascii
  obtain ⟨place, opened⟩ := scan
  cases place <;> simp [Run.scanByte, Scan.passed, other] <;> rfl

/-- On a byte of ASCII the scan does what it does on the character, and it takes down no count from
zero. -/
theorem comes_scanByte {char : Char} (ascii : char.toNat < 128) (inside : 0 < scan.opened)
    (sound : cursor.Sound input) :
    Comes input (Run.scanByte scan char.toUInt8 cursor) (.ok (scan.step char)) cursor.position := by
  have same : ∀ mark : Char, mark.toNat < 128 → (char.toUInt8 = mark.toUInt8 ↔ char = mark) :=
    fun mark => toUInt8_eq_iff ascii
  obtain ⟨place, opened⟩ := scan
  unfold Run.scanByte Scan.step
  cases place with
  | escaped => exact .ok sound
  | quoted =>
    simp only [same '\\' (by decide), same '"' (by decide)]
    split
    · exact .ok sound
    · split <;> exact .ok sound
  | between =>
    simp only [same '"' (by decide), same '\x7b' (by decide), same '\x7d' (by decide),
      same '[' (by decide), same ']' (by decide)]
    split
    · exact .ok sound
    split
    · exact .ok sound
    split
    · have closed : Event.Safe input (.closed opened) := inside
      match opened with
      | 1 => exact .ok (sound.noted closed)
      | opened + 2 =>
        rw [if_neg (show ¬opened + 2 ≤ 1 by omega)]
        exact .ok (sound.noted closed)
    · exact .ok sound

variable {start : Nat} {more : List UInt8}

theorem scanBytes_high {byte : UInt8} (high : 128 ≤ byte.toNat) :
    Run.scanBytes start scan (byte :: more) cursor =
      Run.scanBytes (start + 1) scan.passed more cursor := by
  show EStateM.bind (Run.scanByte scan byte) _ cursor = _
  unfold EStateM.bind
  rw [scanByte_high high]

/-- After one byte above ASCII more of them change nothing. -/
theorem scanBytes_passed {others : List UInt8} (high : ∀ byte ∈ others, 128 ≤ byte.toNat) :
    Run.scanBytes start scan.passed (others ++ more) cursor =
      Run.scanBytes (start + others.length) scan.passed more cursor := by
  induction others generalizing start with
  | nil => rfl
  | cons byte others inductionHypothesis =>
    obtain ⟨first, rest⟩ := List.forall_mem_cons.mp high
    rw [List.cons_append, scanBytes_high first, passed_passed, inductionHypothesis rest,
      List.length_cons, Nat.add_assoc, Nat.add_comm 1]

/-- The scan goes past all bytes of a character above ASCII. -/
theorem scanBytes_encodeChar {char : Char} (high : 128 ≤ char.toNat) :
    Run.scanBytes start scan (String.utf8EncodeChar char ++ more) cursor =
      Run.scanBytes (start + char.utf8Size) scan.passed more cursor := by
  have each := le_of_mem_encodeChar high
  have length := String.length_utf8EncodeChar char
  cases encodes : String.utf8EncodeChar char with
  | nil => exact absurd encodes (encodeChar_ne_nil char)
  | cons byte others =>
    rw [encodes] at each length
    obtain ⟨first, rest⟩ := List.forall_mem_cons.mp each
    rw [List.cons_append, scanBytes_high first, scanBytes_passed rest, ← length,
      List.length_cons, Nat.add_assoc, Nat.add_comm 1]

/-- Where a scan stops is told by the part of the text behind the first character. -/
theorem behind_cons (start : Nat) (char : Char) (split : Option (List Char × List Char)) :
    ((split.map fun (object, rest) => (char :: object, rest)).map fun parts =>
      start + byteCount parts.1) =
      split.map fun parts => start + char.utf8Size + byteCount parts.1 := by
  rw [Option.map_map]
  exact congrArg (Option.map · split) (funext fun parts => (Nat.add_assoc _ _ _).symm)

/-- Inside of brackets the scan of the bytes stops where the scan of the text does. -/
theorem comes_scanBytes (text : List Char) (inside : 0 < scan.opened)
    (sound : cursor.Sound input) :
    Comes input (Run.scanBytes start scan (encoded text) cursor)
      (.ok ((splitBalanced scan text).map fun parts => start + byteCount parts.1))
      cursor.position := by
  induction text generalizing start scan cursor with
  | nil => exact .ok sound
  | cons char rest inductionHypothesis =>
    rw [encoded_cons, splitBalanced]
    by_cases low : char.toNat < 128
    · rw [encodeChar_ascii low, List.singleton_append]
      refine (comes_scanByte low inside sound).bind fun log logged => ?_
      cases stepped : scan.step char with
      | none =>
        simp only [Option.map_some, byteCount, utf8Size_ascii low]
        exact .ok logged
      | some next =>
        simp only [behind_cons, utf8Size_ascii low]
        exact inductionHypothesis (opened_of_step inside stepped) logged
    · have high := Nat.le_of_not_lt low
      rw [scanBytes_encodeChar high, step_high high]
      simp only [behind_cons]
      exact inductionHypothesis (opened_of_step inside (step_high high scan)) sound

end Bytes

/-! ### Queries -/

section Queries

variable {input : String} {cursor : Cursor} {text : List Char}

theorem StandsBefore.faultOf {position : Nat} (stands : StandsBefore input position text)
    (fault : OutlineFault) :
    Outline.faultOf input.toList (.before text fault) = .parse position fault := by
  obtain ⟨passed, parts, rfl⟩ := stands
  show QueryFault.parse _ fault = _
  rw [parts, byteCount_append, Nat.add_sub_cancel_right]

theorem comes_bytesFrom (stands : StandsBefore input cursor.position text)
    (sound : cursor.Sound input) :
    Comes input (Run.bytesFrom input cursor.position cursor) (.ok (encoded text))
      cursor.position := by
  unfold Run.bytesFrom
  rw [if_neg (by rw [length_bytes]; exact Nat.not_lt.mpr sound.boundary.within),
    stands.drop_bytes]
  exact .ok sound

/-- The scan of the bytes at a brace. -/
theorem comes_scanBytes_brace {inner : List Char} (start : Nat) (sound : cursor.Sound input) :
    Comes input (Run.scanBytes start ⟨.between, 0⟩ (encoded ('\x7b' :: inner)) cursor)
      (.ok ((splitBalanced ⟨.between, 0⟩ ('\x7b' :: inner)).map fun parts =>
        start + byteCount parts.1)) cursor.position := by
  have comes : Comes input (Run.scanBytes (start + 1) ⟨.between, 1⟩ (encoded inner) cursor) _ _ :=
    comes_scanBytes inner Nat.one_pos sound
  rw [show splitBalanced ⟨.between, 0⟩ ('\x7b' :: inner) =
    (splitBalanced ⟨.between, 1⟩ inner).map fun (object, rest) => ('\x7b' :: object, rest) from rfl,
    behind_cons, encoded_cons, encodeChar_ascii (by decide)]
  exact comes

/-- A run before a brace comes to what it makes of the end that the scan of the text finds. -/
theorem comes_query {outcome : Except QueryFault Query} {final : Nat}
    (opens : text.head? = some '\x7b') (stands : StandsBefore input cursor.position text)
    (sound : cursor.Sound input)
    (goesOn : ∀ log, Cursor.Sound input ⟨cursor.position, log⟩ →
      Comes input (Run.queryTo input cursor.position ((splitBalanced ⟨.between, 0⟩ text).map
        fun parts => cursor.position + byteCount parts.1) ⟨cursor.position, log⟩) outcome final) :
    Comes input (Run.query input cursor) outcome final := by
  obtain ⟨inner, rfl⟩ := List.head?_eq_some_iff.mp opens
  refine (comes_bytesFrom stands sound).bind fun log logged => ?_
  exact (comes_scanBytes_brace cursor.position logged).bind goesOn

theorem ofText_ofList (object : List Char) :
    Query.decoder.ofText (String.ofList object) = Query.decoder.ofChars object := by
  unfold Json.Decoder.ofText
  rw [String.toList_ofList]

/-- A run before a query comes to the query, at the position behind it. -/
theorem comes_query_ok {object rest : List Char} {query : Query}
    (isQuery : IsQueryText object query)
    (stands : StandsBefore input cursor.position (object ++ rest)) (sound : cursor.Sound input) :
    Comes input (Run.query input cursor) (.ok query) (cursor.position + byteCount object) := by
  have opens : (object ++ rest).head? = some '\x7b' := by
    rw [List.head?_append, isQuery.opens]
    rfl
  refine comes_query opens stands sound fun log logged => ?_
  rw [isQuery.splitBalanced rest]
  refine (comes_slice stands logged).bind fun log logged => ?_
  rw [ofText_ofList, isQuery.decodes]
  exact .ok (logged.moved stands.onward.boundary)

/-- A run before a brace comes to a fault where it stands when no query is read. -/
theorem comes_query_error {stop : Stop} (opens : text.head? = some '\x7b')
    (stands : StandsBefore input cursor.position text) (sound : cursor.Sound input)
    (failed : readQuery text = .error stop) :
    ∃ fault, stop = .before text fault ∧
      Comes input (Run.query input cursor) (.error (.parse cursor.position fault))
        cursor.position := by
  unfold readQuery at failed
  split at failed
  · rename_i unsplit
    cases failed
    refine ⟨_, rfl, comes_query opens stands sound fun log logged => ?_⟩
    rw [unsplit]
    exact .error logged
  rename_i object rest split
  split at failed
  · cases failed
  rename_i undecoded
  cases failed
  refine ⟨_, rfl, comes_query opens stands sound fun log logged => ?_⟩
  obtain ⟨_, _, _, _, rfl, _, _⟩ := run_of_splitBalanced split
  rw [split]
  refine (comes_slice stands logged).bind fun log logged => ?_
  rw [ofText_ofList, undecoded]
  exact .error logged

end Queries

section Brace

variable {input : String} {position : Nat} {text : List Char}

/-- One text at most is, from the start of a text on, the object of a query. -/
theorem isQueryText_unique {object other : List Char} {query otherQuery : Query}
    (starts : object <+: text) (otherStarts : other <+: text) (isQuery : IsQueryText object query)
    (isOther : IsQueryText other otherQuery) : object = other := by
  obtain ⟨rest, rfl⟩ := starts
  obtain ⟨otherRest, same⟩ := otherStarts
  have split := isQuery.splitBalanced rest
  rw [← same, isOther.splitBalanced otherRest] at split
  cases split
  rfl

theorem readQuery_iff (opens : text.head? = some '\x7b') {query : Query} {rest : List Char} :
    readQuery text = .ok (query, rest) ↔
      ∃ object, text = object ++ rest ∧ IsQueryText object query := by
  constructor
  · exact exists_of_readQuery opens
  · rintro ⟨object, rfl, isQuery⟩
    exact readQuery_of_isQueryText isQuery rest

theorem run_query_iff (opens : text.head? = some '\x7b')
    (stands : StandsBefore input position text) {query : Query} {stop : Nat} :
    (∃ log, Run.query input ⟨position, []⟩ = .ok query ⟨stop, log⟩) ↔
      ∃ object, object <+: text ∧ IsQueryText object query ∧
        stop = position + byteCount object := by
  have sound : Cursor.Sound input ⟨position, []⟩ := ⟨stands.boundary, nofun⟩
  constructor
  · rintro ⟨log, ran⟩
    cases read : readQuery text with
    | error failed =>
      obtain ⟨fault, _, comes⟩ := comes_query_error opens stands sound read
      obtain ⟨_, failed⟩ := comes.eq_error
      cases ran.symm.trans failed
    | ok found =>
      obtain ⟨object, rfl, isQuery⟩ := exists_of_readQuery opens read
      obtain ⟨_, found⟩ := (comes_query_ok isQuery stands sound).eq_ok
      cases ran.symm.trans found
      exact ⟨object, List.prefix_append _ _, isQuery, rfl⟩
  · rintro ⟨object, ⟨rest, rfl⟩, isQuery, rfl⟩
    exact (comes_query_ok isQuery stands sound).eq_ok

theorem query_fails (opens : text.head? = some '\x7b')
    (stands : StandsBefore input position text)
    (absent : ∀ object query, object <+: text → ¬IsQueryText object query) :
    ∃ fault log, readQuery text = .error (.before text fault) ∧
      Run.query input ⟨position, []⟩ = .error (.fault (.parse position fault)) ⟨position, log⟩ := by
  have sound : Cursor.Sound input ⟨position, []⟩ := ⟨stands.boundary, nofun⟩
  cases read : readQuery text with
  | ok found =>
    obtain ⟨object, rfl, isQuery⟩ := exists_of_readQuery opens read
    exact absurd isQuery (absent object found.1 (List.prefix_append _ _))
  | error stop =>
    obtain ⟨fault, rfl, comes⟩ := comes_query_error opens stands sound read
    obtain ⟨log, failed⟩ := comes.eq_error
    exact ⟨fault, log, rfl, failed⟩

end Brace

/-- Where an input holds a brace, a query is read exactly when some text from there on is an object,
without blanks around it, that decodes to the query. No other text from there on is one then, and
the run goes on behind it, whatever follows. In every other case the run fails where it stands. -/
theorem query_iff_isQueryText {input : String} {position : Nat}
    (opens : (bytes input)[position]? = some '\x7b'.toUInt8) :
    ∃ text, StandsBefore input position text ∧
      (∀ query rest, readQuery text = .ok (query, rest) ↔
        ∃ object, text = object ++ rest ∧ IsQueryText object query) ∧
      (∀ query stop, (∃ log, Run.query input ⟨position, []⟩ = .ok query ⟨stop, log⟩) ↔
        ∃ object, object <+: text ∧ IsQueryText object query ∧
          stop = position + byteCount object) ∧
      (∀ object other query otherQuery, object <+: text → other <+: text →
        IsQueryText object query → IsQueryText other otherQuery → object = other) ∧
      ((∀ object query, object <+: text → ¬IsQueryText object query) →
        ∃ fault log, readQuery text = .error (.before text fault) ∧
          Run.query input ⟨position, []⟩ = .error (.fault (.parse position fault))
            ⟨position, log⟩) := by
  obtain ⟨text, stands⟩ := standsBefore_of_ascii opens (by decide)
  have head := (stands.getElem?_eq_some_iff (by decide)).mp opens
  exact ⟨text, stands, fun _ _ => readQuery_iff head, fun _ _ => run_query_iff head stands,
    fun _ _ _ _ => isQueryText_unique, query_fails head stands⟩

/-- Behind a name and a brace the object of a query is read, and the run stands before the comma. -/
theorem query_iff_isQueryText_limit :
    (bytes "a\x7b\x7b\"limit\":1\x7d,b")[2]? = some '\x7b'.toUInt8 ∧
      ∃ log, Run.query "a\x7b\x7b\"limit\":1\x7d,b" ⟨2, []⟩ =
        .ok { limit := some 1 } ⟨13, log⟩ := by
  have opens : (bytes "a\x7b\x7b\"limit\":1\x7d,b")[2]? = some '\x7b'.toUInt8 := by
    rw [bytes_eq_encoded]
    rfl
  refine ⟨opens, ?_⟩
  obtain ⟨text, stands, _, ran, _⟩ := query_iff_isQueryText opens
  have left : StandsBefore "a\x7b\x7b\"limit\":1\x7d,b" 2
      ("\x7b\"limit\":1\x7d".toList ++ ",b".toList) := ⟨"a\x7b".toList, rfl, rfl⟩
  have isQuery : IsQueryText "\x7b\"limit\":1\x7d".toList { limit := some 1 } := by
    refine ⟨rfl, ?_, rfl⟩
    rintro _ ⟨⟩
    rfl
  rw [stands.unique left] at ran
  exact (ran _ 13).mpr ⟨_, List.prefix_append _ _, isQuery, rfl⟩

end Outline

end ListQuery
