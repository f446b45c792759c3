/-
This file proves that a run over the bytes of an outline does what the parser does on
its characters. It comes to the same tree or the same fault, so it neither panics nor
runs on without end, and whatever it does on the way is safe. What carries this through
the functions of the parser is one relation between a run and a reader, with a law for
putting steps in a row.
-/

import ListQuery.Proofs.Relation.Scanning

namespace ListQuery

namespace Outline

/-! ### Runs that follow a reader -/

section Following

variable {Value Other : Type} {input : String} {cursor : Cursor} {least further position : Nat}

/-- A run does what a reader does: it comes to the value, at a position no less than some least one
before the text that the reader leaves, or it comes to the fault of the reader. -/
inductive Follows (input : String) (least : Nat) :
    EStateM.Result Halt Cursor Value → Except Stop (Value × List Char) → Prop
  | ok {result : EStateM.Result Halt Cursor Value} {value : Value} {rest : List Char}
      {position : Nat} (comes : Comes input result (.ok value) position)
      (stands : StandsBefore input position rest) (forward : least ≤ position) :
      Follows input least result (.ok (value, rest))
  | error {result : EStateM.Result Halt Cursor Value} {stop : Stop} {position : Nat}
      (comes : Comes input result (.error (faultOf input.toList stop)) position) :
      Follows input least result (.error stop)

variable {run : Run Value} {next : Value → Run Other} {value : Value}
  {read : Except Stop (Value × List Char)} {other : Except Stop (Other × List Char)}
  {goesOn : Value × List Char → Except Stop (Other × List Char)}

/-- Two steps in a row follow two steps in a row. -/
theorem Follows.bind (first : Follows input least (run cursor) read)
    (second : ∀ value rest position log, StandsBefore input position rest → least ≤ position →
      Cursor.Sound input ⟨position, log⟩ →
      Follows input further (next value ⟨position, log⟩) (goesOn (value, rest))) :
    Follows input further ((run >>= next) cursor) (read >>= goesOn) := by
  cases first with
  | @ok value rest position comes stands forward =>
    show Follows input further (EStateM.bind run next cursor) (goesOn (value, rest))
    unfold EStateM.bind
    generalize run cursor = result at comes
    cases comes with
    | ok sound => exact second _ _ _ _ stands forward sound
  | error comes => exact .error comes.stop

/-- A step that no reader takes leaves the rest of the run to follow. -/
theorem Comes.follows (first : Comes input (run cursor) (.ok value) position)
    (second : ∀ log, Cursor.Sound input ⟨position, log⟩ →
      Follows input least (next value ⟨position, log⟩) other) :
    Follows input least ((run >>= next) cursor) other := by
  show Follows input least (EStateM.bind run next cursor) other
  unfold EStateM.bind
  generalize run cursor = result at first
  cases first with
  | ok sound => exact second _ sound

theorem Follows.le {result : EStateM.Result Halt Cursor Value} (less : least ≤ further)
    (follows : Follows input further result read) : Follows input least result read := by
  cases follows with
  | ok comes stands forward => exact .ok comes stands (Nat.le_trans less forward)
  | error comes => exact .error comes

end Following

section Steps

variable {Value : Type} {input : String} {cursor : Cursor} {least : Nat} {text rest : List Char}

theorem position_bind (next : Nat → Run Value) :
    (Run.position >>= next) cursor = next cursor.position cursor :=
  rfl

theorem note_bind (event : Event) (next : Unit → Run Value) :
    (Run.note event >>= next) cursor = next () ⟨cursor.position, event :: cursor.log⟩ :=
  rfl

theorem peek_bind (next : Option UInt8 → Run Value) :
    (Run.peek input >>= next) cursor = next (bytes input)[cursor.position]? cursor :=
  rfl

theorem follows_pure (value : Value) (stands : StandsBefore input cursor.position rest)
    (forward : least ≤ cursor.position) (sound : cursor.Sound input) :
    Follows input least ((pure value : Run Value) cursor) (.ok (value, rest)) :=
  .ok (.ok sound) stands forward

theorem follows_failAt (fault : OutlineFault) (stands : StandsBefore input cursor.position rest)
    (sound : cursor.Sound input) :
    Follows input least ((Run.failAt cursor.position fault : Run Value) cursor)
      (.error (.before rest fault)) := by
  have comes : Comes input ((Run.failAt cursor.position fault : Run Value) cursor)
      (.error (.parse cursor.position fault)) cursor.position := .error sound
  rw [← stands.faultOf fault] at comes
  exact .error comes

end Steps

/-! ### Names -/

section Names

variable {input : String} {cursor : Cursor} {text : List Char}

/-- What is left of the input, taken as a piece. -/
theorem comes_left (stands : StandsBefore input cursor.position text) (sound : cursor.Sound input) :
    Comes input (Run.slice input cursor.position input.utf8ByteSize cursor)
      (.ok (String.ofList text)) cursor.position := by
  rw [← stands.size]
  rw [← List.append_nil text] at stands
  exact comes_slice stands sound

theorem comes_name {name : String} {after : List Char} (isName : IsName name)
    (ends : EndsName after) (stands : StandsBefore input cursor.position (name.toList ++ after))
    (sound : cursor.Sound input) :
    Comes input (Run.name input cursor) (.ok name)
      (cursor.position + byteCount name.toList) := by
  refine (comes_left stands sound).bind fun log logged => ?_
  simp only [String.toList_ofList, takeWhile_name isName ends]
  rw [if_neg (Nat.pos_iff_ne_zero.mp (byteCount_pos isName.1))]
  have taken := comes_slice stands (logged.moved stands.onward.boundary)
  rwa [String.ofList_toList] at taken

theorem comes_name_error (nameless : (text.takeWhile fun char => !isReserved char) = [])
    (stands : StandsBefore input cursor.position text) (sound : cursor.Sound input) :
    Comes input (Run.name input cursor) (.error (.parse cursor.position .nameExpected))
      cursor.position := by
  refine (comes_left stands sound).bind fun log logged => ?_
  simp only [String.toList_ofList, nameless]
  exact .error logged

end Names

/-! ### Relations -/

section Relations

variable {input : String} {cursor : Cursor} {text : List Char} {start : Nat}
  {run : Run RelationTree} {nested : List Char → Except Stop (RelationTree × List Char)}

/-- A run follows a reader on every text that is no longer than some limit. -/
def FollowsWithin {Value : Type} (input : String) (limit least : Nat) (run : Run Value)
    (read : List Char → Except Stop (Value × List Char)) : Prop :=
  ∀ text (cursor : Cursor), text.length ≤ limit → StandsBefore input cursor.position text →
    cursor.Sound input → Follows input (cursor.position + least) (run cursor) (read text)

/-- A run moves past a mark of ASCII. -/
theorem comes_advance (mark : Char) {rest : List Char} (ascii : mark.toNat < 128)
    (stands : StandsBefore input cursor.position (mark :: rest)) (sound : cursor.Sound input) :
    StandsBefore input (cursor.position + 1) rest ∧
      Comes input (Run.advance cursor) (.ok ()) (cursor.position + 1) := by
  have further : StandsBefore input (cursor.position + byteCount [mark]) rest := stands.onward
  rw [byteCount, utf8Size_ascii ascii] at further
  exact ⟨further, .ok (sound.moved further.boundary)⟩

/-- The nested relations behind the start of their relation. -/
theorem follows_enter {limit : Nat} (each : FollowsWithin input limit 0 run nested)
    (enough : text.length ≤ limit) (stands : StandsBefore input cursor.position text)
    (sound : cursor.Sound input) (before : start < cursor.position) :
    Follows input cursor.position (Run.enter run start cursor) (nested text) := by
  have safe : Event.Safe input (.entered start cursor.position) := before
  exact each text ⟨cursor.position, _⟩ enough stands (sound.noted safe)

/-! ### Scopes

The readers behind the query of a scope, and behind a scope, as functions of their own. -/

/-- The reader of what follows the query of a scope. -/
def readBehind (nested : List Char → Except Stop (RelationTree × List Char)) (query : Query)
    (text : List Char) : Except Stop ((Option Query × Option RelationTree) × List Char) :=
  match text with
  | ',' :: rest => do
    let (tree, rest) ← nested rest
    return ((some query, some tree), rest)
  | '\x7d' :: _ => return ((some query, none), text)
  | _ => throw (.before text .queryEndExpected)

/-- The reader of the closing brace of a scope. -/
def readClosing (name : String) :
    (Option Query × Option RelationTree) × List Char → Except Stop (Relation × List Char)
  | ((query, tree), rest) =>
    match rest with
    | '\x7d' :: rest => return (.refined name query tree, rest)
    | _ => throw (.before rest (.unclosed name))

theorem follows_behind {limit : Nat} (query : Query) (each : FollowsWithin input limit 0 run nested)
    (enough : text.length ≤ limit) (stands : StandsBefore input cursor.position text)
    (sound : cursor.Sound input) (before : start < cursor.position) :
    Follows input cursor.position (Run.scopeBehind input run start query cursor)
      (readBehind nested query text) := by
  unfold Run.scopeBehind
  rw [peek_bind]
  by_cases comma : text.head? = some ','
  · obtain ⟨others, rfl⟩ := List.head?_eq_some_iff.mp comma
    obtain ⟨further, advanced⟩ := comes_advance ',' (by decide) stands sound
    rw [stands.if_mark (by decide) comma]
    refine advanced.follows fun log logged => ?_
    have entered := follows_enter each (Nat.le_of_succ_le enough) further logged
      (Nat.lt_succ_of_lt before)
    refine entered.bind fun tree rest position log stands forward logged => ?_
    exact follows_pure _ stands (Nat.le_of_succ_le forward) logged
  rw [stands.if_noMark (by decide) comma]
  by_cases closing : text.head? = some '\x7d'
  · obtain ⟨others, rfl⟩ := List.head?_eq_some_iff.mp closing
    rw [stands.if_mark (by decide) closing]
    exact follows_pure _ stands (Nat.le_refl _) sound
  · rw [stands.if_noMark (by decide) closing]
    unfold readBehind
    split
    · exact absurd rfl comma
    · exact absurd rfl closing
    · exact follows_failAt _ stands sound

theorem follows_scope {limit : Nat} (each : FollowsWithin input limit 0 run nested)
    (enough : text.length ≤ limit) (stands : StandsBefore input cursor.position text)
    (sound : cursor.Sound input) (before : start < cursor.position) :
    Follows input cursor.position (Run.scope input run start cursor) (readScope nested text) := by
  unfold Run.scope
  rw [peek_bind]
  by_cases opens : text.head? = some '\x7b'
  · rw [stands.if_mark (by decide) opens]
    cases read : readQuery text with
    | error stop =>
      obtain ⟨fault, rfl, comes⟩ := comes_query_error opens stands sound read
      rw [← stands.faultOf] at comes
      have failed : readScope nested text = .error (.before text fault) := by
        obtain ⟨inner, rfl⟩ := List.head?_eq_some_iff.mp opens
        unfold readScope
        simp only [read]
        rfl
      rw [failed]
      exact .error comes.stop
    | ok found =>
      obtain ⟨query, rest⟩ := found
      obtain ⟨object, rfl, isQuery⟩ := exists_of_readQuery opens read
      rw [List.length_append] at enough
      rw [readScope_query isQuery]
      refine (comes_query_ok isQuery stands sound).follows fun log logged => ?_
      have behind := follows_behind query each (by omega) stands.onward logged
        (Nat.lt_add_right _ before)
      exact behind.le (Nat.le_add_right _ _)
  · have noBrace : ∀ inner, text ≠ '\x7b' :: inner := by
      rintro inner rfl
      exact opens rfl
    rw [stands.if_noMark (by decide) opens,
      readScope_list noBrace]
    refine (follows_enter each enough stands sound before).bind
      fun tree rest position log stands forward logged => ?_
    exact follows_pure _ stands forward logged

/-- The scope of a relation, up to its closing brace. -/
theorem follows_refined {limit : Nat} {name : String}
    (each : FollowsWithin input limit 0 run nested)
    (enough : text.length ≤ limit) (stands : StandsBefore input cursor.position text)
    (sound : cursor.Sound input) (before : start < cursor.position) :
    Follows input (start + 1) (Run.refined input run start name cursor)
      (readScope nested text >>= readClosing name) := by
  refine (follows_scope each enough stands sound before).bind
    fun parts rest position log stands forward logged => ?_
  obtain ⟨query, tree⟩ := parts
  dsimp only
  rw [peek_bind]
  by_cases closing : rest.head? = some '\x7d'
  · obtain ⟨others, rfl⟩ := List.head?_eq_some_iff.mp closing
    obtain ⟨further, advanced⟩ := comes_advance '\x7d' (by decide) stands logged
    rw [stands.if_mark (by decide) closing]
    refine advanced.follows fun log logged => ?_
    have behind : start + 1 ≤ position + 1 :=
      Nat.succ_le_succ (Nat.le_of_lt (Nat.lt_of_lt_of_le before forward))
    exact follows_pure _ further behind logged
  · rw [stands.if_noMark (by decide) closing]
    simp only [readClosing]
    split
    · exact absurd rfl closing
    · exact follows_failAt _ stands logged

/-- A relation takes at least one byte. -/
theorem follows_relation {limit : Nat} (each : FollowsWithin input limit 0 run nested) :
    FollowsWithin input (limit + 1) 1 (Run.relation input run) (readRelation nested) := by
  intro text cursor enough stands sound
  by_cases nameless : (text.takeWhile fun char => !isReserved char) = []
  · have failed : readRelation nested text = .error (.before text .nameExpected) := by
      unfold readRelation
      rw [nameless]
    have comes := comes_name_error nameless stands sound
    rw [← stands.faultOf] at comes
    rw [failed]
    exact .error comes.stop
  obtain ⟨name, after, rfl, isName, ends⟩ := exists_name nameless
  have named := stands.onward
  have forward : cursor.position + 1 ≤ cursor.position + byteCount name.toList :=
    Nat.add_le_add_left (byteCount_pos isName.1) _
  refine (comes_name isName ends stands sound).follows fun log logged => ?_
  rw [peek_bind]
  by_cases opens : after.head? = some '\x7b'
  · obtain ⟨inner, rfl⟩ := List.head?_eq_some_iff.mp opens
    obtain ⟨further, advanced⟩ := comes_advance '\x7b' (by decide) named logged
    rw [List.length_append, List.length_cons] at enough
    rw [named.if_mark (by decide) opens, readRelation_refined isName]
    refine advanced.follows fun log logged => ?_
    exact follows_refined each (by omega) further logged (Nat.lt_succ_of_lt forward)
  · have bare : ∀ inner, after ≠ '\x7b' :: inner := by
      rintro inner rfl
      exact opens rfl
    rw [named.if_noMark (by decide) opens,
      readRelation_plain isName ends bare]
    exact follows_pure _ named forward logged

end Relations

/-! ### Trees -/

section Trees

variable {input : String} {run : Run Relation}
  {read : List Char → Except Stop (Relation × List Char)}

/-- A run at a character sees whether it separates relations. -/
theorem StandsBefore.separates_iff {position : Nat} {char : Char} {rest : List Char}
    (stands : StandsBefore input position (char :: rest)) :
    (bytes input)[position]? = some ','.toUInt8 ↔ char = ',' := by
  rw [stands.getElem?_eq_some_iff (by decide), List.head?_cons, Option.some_inj]

/-- A run at a character sees whether it ends relations. -/
theorem StandsBefore.ends_iff {position : Nat} {char : Char} {rest : List Char}
    (stands : StandsBefore input position (char :: rest)) :
    (bytes input)[position]? = none ∨ (bytes input)[position]? = some '\x7d'.toUInt8 ↔
      char = '\x7d' := by
  rw [stands.getElem?_eq_none_iff, stands.getElem?_eq_some_iff (by decide), List.head?_cons,
    Option.some_inj]
  exact or_iff_right (List.cons_ne_nil char rest)

/-- The turns of the loop. There are fewer of them than characters, so that neither the fuel of the
run nor the bound of the reader is used up. -/
theorem follows_relations {limit : Nat} (each : FollowsWithin input limit 1 run read) {fuel : Nat} :
    ∀ {bound : Nat} {tree : RelationTree} {text : List Char} {cursor : Cursor},
      text.length ≤ limit → text.length < fuel → text.length ≤ bound → 0 < bound →
      StandsBefore input cursor.position text → cursor.Sound input →
      Follows input cursor.position (Run.relations input run fuel tree cursor)
        (readRelations read bound tree text) := by
  induction fuel with
  | zero =>
    intro bound tree text cursor _ fueled
    exact absurd fueled (Nat.not_lt_zero _)
  | succ fuel inductionHypothesis =>
    intro bound tree text cursor enough fueled bounded positive stands sound
    obtain ⟨less, rfl⟩ : ∃ less, bound = less + 1 := ⟨bound - 1, by omega⟩
    refine (each text cursor enough stands sound).bind
      fun node rest position log further forward logged => ?_
    have turned : Event.Safe input (.turned cursor.position position) := forward
    have shorter := stands.length_lt further forward
    have noted := logged.noted turned
    rw [position_bind, note_bind, peek_bind]
    dsimp only
    cases rest with
    | nil =>
      rw [further.getElem?_eq_none_iff.mpr rfl]
      exact follows_pure _ further (Nat.le_of_succ_le forward) noted
    | cons char more =>
      simp only [further.separates_iff, further.ends_iff]
      split
      · rename_i isComma
        subst isComma
        rw [List.length_cons] at shorter
        obtain ⟨behind, advanced⟩ := comes_advance ',' (by decide) further noted
        refine advanced.follows fun log logged => ?_
        refine .le (Nat.le_succ_of_le (Nat.le_of_succ_le forward)) ?_
        exact inductionHypothesis (by omega) (by omega) (by omega) (by omega) behind logged
      split
      · exact follows_pure _ further (Nat.le_of_succ_le forward) noted
      · exact follows_failAt _ further noted

theorem follows_tree {fuel : Nat} :
    ∀ {depth levels : Nat} {text : List Char} {cursor : Cursor},
      depth + levels = maxNesting + 1 → text.length < fuel →
      StandsBefore input cursor.position text → cursor.Sound input →
      Follows input cursor.position (Run.tree input fuel depth cursor) (readTree levels text) := by
  induction fuel with
  | zero =>
    intro depth levels text cursor _ fueled
    exact absurd fueled (Nat.not_lt_zero _)
  | succ fuel inductionHypothesis =>
    intro depth levels text cursor room fueled stands sound
    unfold Run.tree
    cases levels with
    | zero =>
      rw [if_pos (show maxNesting < depth by omega)]
      exact .error (.error sound)
    | succ levels =>
      rw [if_neg (show ¬maxNesting < depth by omega), peek_bind]
      cases text with
      | nil =>
        rw [stands.getElem?_eq_none_iff.mpr rfl]
        exact follows_pure _ stands (Nat.le_refl _) sound
      | cons char rest =>
        unfold readTree
        simp only [stands.ends_iff]
        split
        · exact follows_pure _ stands (Nat.le_refl _) sound
        · have nested : FollowsWithin input rest.length 0 (Run.tree input fuel (depth + 1))
              (readTree levels) := by
            intro text cursor enough stands sound
            rw [List.length_cons] at fueled
            exact inductionHypothesis (by omega) (by omega) stands sound
          exact follows_relations (follows_relation nested) (Nat.le_refl _) fueled (Nat.le_refl _)
            (Nat.succ_pos _) stands sound

end Trees

/-! ### More fuel -/

section Fuel

variable {Value Other : Type} {input : String} {start : Nat}

/-- A run does what another one does, unless it does not finish. -/
def Extends (run other : Run Value) : Prop :=
  ∀ cursor, run cursor = other cursor ∨ ∃ after, run cursor = .error .unfinished after

theorem Extends.refl (run : Run Value) : Extends run run :=
  fun _ => .inl rfl

theorem extends_unfinished (other : Run Value) : Extends (throw .unfinished) other :=
  fun cursor => .inr ⟨cursor, rfl⟩

theorem Extends.bind {run other : Run Value} {next goesOn : Value → Run Other}
    (first : Extends run other) (second : ∀ value, Extends (next value) (goesOn value)) :
    Extends (run >>= next) (other >>= goesOn) := by
  intro cursor
  show EStateM.bind run next cursor = EStateM.bind other goesOn cursor ∨
    ∃ after, EStateM.bind run next cursor = _
  unfold EStateM.bind
  rcases first cursor with same | ⟨after, unfinished⟩
  · rw [same]
    cases other cursor with
    | ok value after => exact second value after
    | error halt after => exact .inl rfl
  · rw [unfinished]
    exact .inr ⟨after, rfl⟩

theorem Extends.ite {condition : Prop} [Decidable condition] {first second third fourth : Run Value}
    (positive : Extends first second) (negative : Extends third fourth) :
    Extends (if condition then first else third) (if condition then second else fourth) := by
  split
  · exact positive
  · exact negative

theorem extends_enter {run other : Run RelationTree} (nested : Extends run other) (start : Nat) :
    Extends (Run.enter run start) (Run.enter other start) :=
  .bind (.refl _) fun _ => .bind (.refl _) fun _ => nested

theorem extends_scope {run other : Run RelationTree} (nested : Extends run other) :
    Extends (Run.scope input run start) (Run.scope input other start) := by
  have entered := extends_enter nested start
  refine .bind (.refl _) fun byte => .ite (.bind (.refl _) fun query => ?_)
    (.bind entered fun _ => .refl _)
  refine .bind (.refl _) fun next => .ite (.bind (.refl _) fun _ => ?_) (.refl _)
  exact .bind entered fun _ => .refl _

theorem extends_relation {run other : Run RelationTree} (nested : Extends run other) :
    Extends (Run.relation input run) (Run.relation input other) := by
  refine .bind (.refl _) fun start => .bind (.refl _) fun name => .bind (.refl _) fun byte => ?_
  refine .ite (.bind (.refl _) fun _ => ?_) (.refl _)
  exact .bind (extends_scope nested) fun _ => .refl _

theorem extends_relations {run other : Run Relation} (each : Extends run other) {fuel : Nat} :
    ∀ {more : Nat} {tree : RelationTree}, fuel ≤ more →
      Extends (Run.relations input run fuel tree) (Run.relations input other more tree) := by
  induction fuel with
  | zero => exact fun _ => extends_unfinished _
  | succ fuel inductionHypothesis =>
    intro more tree enough
    obtain ⟨less, rfl⟩ : ∃ less, more = less + 1 := ⟨more - 1, by omega⟩
    refine .bind (.refl _) fun start => .bind each fun node => .bind (.refl _) fun stop => ?_
    refine .bind (.refl _) fun _ => .bind (.refl _) fun next => .ite ?_ (.refl _)
    exact .bind (.refl _) fun _ => inductionHypothesis (by omega)

theorem extends_tree {fuel : Nat} :
    ∀ {more depth : Nat}, fuel ≤ more →
      Extends (Run.tree input fuel depth) (Run.tree input more depth) := by
  induction fuel with
  | zero => exact fun _ => extends_unfinished _
  | succ fuel inductionHypothesis =>
    intro more depth enough
    obtain ⟨less, rfl⟩ : ∃ less, more = less + 1 := ⟨more - 1, by omega⟩
    refine .ite (.refl _) (.bind (.refl _) fun next => .ite (.refl _) ?_)
    exact extends_relations (extends_relation (inductionHypothesis (by omega))) enough

theorem extends_outline {fuel more : Nat} (enough : fuel ≤ more) :
    Extends (Run.outline input fuel) (Run.outline input more) :=
  .bind (extends_tree enough) fun _ => .refl _

end Fuel

/-! ### Whole outlines -/

/-- A run over a whole input comes to what the parser makes of it. -/
theorem comes_outline (input : String) {fuel : Nat} (enough : input.utf8ByteSize < fuel) :
    ∃ position, Comes input (Run.outline input fuel ⟨0, []⟩) (RelationTree.ofOutline input)
      position := by
  have stands := standsBefore_start input
  have sound : Cursor.Sound input ⟨0, []⟩ := ⟨stands.boundary, nofun⟩
  have fueled : input.toList.length < fuel := by
    refine Nat.lt_of_le_of_lt (length_le_byteCount _) ?_
    rwa [byteCount_toList]
  have follows := follows_tree (Nat.zero_add _) fueled stands sound
  unfold Run.outline RelationTree.ofOutline parse
  generalize readTree (maxNesting + 1) input.toList = read at follows
  cases follows with
  | error comes => exact ⟨_, comes.stop⟩
  | @ok tree rest position comes stands _ =>
    refine ⟨position, comes.bind fun log logged => ?_⟩
    rw [position_bind]
    cases rest with
    | nil =>
      have atEnd : position = input.utf8ByteSize := stands.size
      rw [if_neg (show ¬position < input.utf8ByteSize by omega)]
      exact .ok logged
    | cons char rest =>
      have left := stands.size
      have more := byteCount_pos (List.cons_ne_nil char rest)
      have comes : Comes input ((Run.failAt position .strayBrace : Run RelationTree)
          ⟨position, log⟩) (.error (.parse position .strayBrace)) position := .error logged
      rw [← stands.faultOf] at comes
      rw [if_pos (show position < input.utf8ByteSize by omega)]
      exact comes

/-- For every input there is one run over its bytes, which every fuel beyond the size of the input
comes to. It gives the tree or the fault that the parser gives, so it neither panics nor fails to
end. What it has done is safe: it has stood only at characters, or at the end, its pieces lie in
order between characters, it has taken no count down from zero, and each turn of its loop and each
step into nested relations has taken at least one byte. -/
theorem outline_run_sound (input : String) :
    ∃ final : Cursor, final.Sound input ∧ ∀ extra : Nat,
      Run.outline input (input.utf8ByteSize + 1 + extra) ⟨0, []⟩ =
        match RelationTree.ofOutline input with
        | .ok tree => .ok tree final
        | .error fault => .error (.fault fault) final := by
  obtain ⟨position, comes⟩ := comes_outline input (Nat.lt_succ_self _)
  have same : ∀ extra, Run.outline input (input.utf8ByteSize + 1 + extra) ⟨0, []⟩ =
      Run.outline input (input.utf8ByteSize + 1) ⟨0, []⟩ := by
    intro extra
    rcases extends_outline (Nat.le_add_right _ extra) ⟨0, []⟩ with same | ⟨after, unfinished⟩
    · exact same.symm
    · rw [unfinished] at comes
      cases comes
  generalize RelationTree.ofOutline input = outcome at comes ⊢
  generalize Run.outline input (input.utf8ByteSize + 1) ⟨0, []⟩ = result at comes same
  cases comes with
  | ok sound => exact ⟨_, sound, same⟩
  | error sound => exact ⟨_, sound, same⟩

end Outline

end ListQuery
