/-
This file proves that the scan which cuts a query out of an outline agrees with the
reader of documents about where a document ends. The scan knows nothing but
brackets, quotes and backslashes. Whatever the reader takes off a text leaves the
scan where it was, between the parts of a document and with as many brackets open,
so a scan that starts at a document can only stop at its last bracket.
-/

import ListQuery.Proofs.Json.Series
import ListQuery.Proofs.Text.Run
import ListQuery.Relation.Outline.Parser

namespace ListQuery

namespace Outline

/-! ### Runs of the scan -/

/-- Goes past a whole text; none when some character closes the outermost bracket. -/
def Scan.run (scan : Scan) : List Char → Option Scan
  | [] => some scan
  | char :: rest =>
    match scan.step char with
    | some next => next.run rest
    | none => none

theorem run_append (scan : Scan) (first second : List Char) :
    scan.run (first ++ second) = (scan.run first).bind fun next => next.run second := by
  induction first generalizing scan with
  | nil => rfl
  | cons char rest inductionHypothesis =>
    rw [List.cons_append, Scan.run, Scan.run]
    cases scan.step char with
    | none => rfl
    | some next => exact inductionHypothesis next

/-- A text that the scan goes past without a change, inside of brackets. -/
def Neutral (text : List Char) : Prop :=
  ∀ opened, 0 < opened → Scan.run ⟨.between, opened⟩ text = some ⟨.between, opened⟩

theorem neutral_nil : Neutral [] :=
  fun _ _ => rfl

theorem Neutral.append {first second : List Char} (firstNeutral : Neutral first)
    (secondNeutral : Neutral second) : Neutral (first ++ second) := by
  intro opened inside
  rw [run_append, firstNeutral opened inside]
  exact secondNeutral opened inside

/-- A character that means nothing to the scan. -/
def Plain (char : Char) : Prop :=
  char ≠ '"' ∧ ¬(char = '\x7b' ∨ char = '[') ∧ ¬(char = '\x7d' ∨ char = ']')

instance : DecidablePred Plain :=
  fun _ => inferInstanceAs (Decidable (_ ∧ _))

theorem neutral_of_plain {text : List Char} (each : ∀ char ∈ text, Plain char) : Neutral text := by
  intro opened _
  induction text with
  | nil => rfl
  | cons char rest inductionHypothesis =>
    obtain ⟨noQuote, noOpening, noClosing⟩ := each char List.mem_cons_self
    rw [Scan.run, Scan.step]
    simp only [if_neg noQuote, if_neg noOpening, if_neg noClosing]
    exact inductionHypothesis fun other member => each other (List.mem_cons_of_mem _ member)

/-- A neutral text in brackets is neutral, and so is the whole text while other brackets are
open. -/
theorem Neutral.bracketed {text : List Char} (neutral : Neutral text) {opening closing : Char}
    (opens : opening = '\x7b' ∨ opening = '[') (closes : closing = '\x7d' ∨ closing = ']') :
    Neutral (opening :: (text ++ [closing])) := by
  intro opened inside
  have noQuote : opening ≠ '"' := by rcases opens with rfl | rfl <;> decide
  have noQuoteEnd : closing ≠ '"' := by rcases closes with rfl | rfl <;> decide
  have noOpening : ¬(closing = '\x7b' ∨ closing = '[') := by
    rcases closes with rfl | rfl <;> decide
  rw [Scan.run, Scan.step]
  simp only [if_neg noQuote, if_pos opens]
  rw [run_append, neutral (opened + 1) (Nat.succ_pos _)]
  show Scan.run ⟨.between, opened + 1⟩ [closing] = _
  rw [Scan.run, Scan.step]
  simp only [if_neg noQuoteEnd, if_neg noOpening, if_pos closes]
  rw [if_neg (show ¬opened + 1 ≤ 1 by omega)]
  rfl

/-! ### What the reader takes off -/

/-- What was taken off a text is neutral. -/
def Consumes (text rest : List Char) : Prop :=
  ∃ taken, text = taken ++ rest ∧ Neutral taken

theorem Consumes.refl (text : List Char) : Consumes text text :=
  ⟨[], rfl, neutral_nil⟩

theorem Consumes.trans {text middle rest : List Char} (first : Consumes text middle)
    (second : Consumes middle rest) : Consumes text rest := by
  obtain ⟨taken, rfl, takenNeutral⟩ := first
  obtain ⟨more, rfl, moreNeutral⟩ := second
  exact ⟨taken ++ more, (List.append_assoc taken more rest).symm,
    takenNeutral.append moreNeutral⟩

theorem Consumes.length_le {text rest : List Char} (consumes : Consumes text rest) :
    rest.length ≤ text.length := by
  obtain ⟨taken, rfl, _⟩ := consumes
  rw [List.length_append]
  exact Nat.le_add_left _ _

theorem consumes_plain {taken rest : List Char} (each : ∀ char ∈ taken, Plain char) :
    Consumes (taken ++ rest) rest :=
  ⟨taken, rfl, neutral_of_plain each⟩

theorem consumes_char {char : Char} (plain : Plain char) (rest : List Char) :
    Consumes (char :: rest) rest :=
  consumes_plain (List.forall_mem_singleton.mpr plain)

/-- The front of a text that holds only characters of some class. -/
theorem consumes_dropWhile {belongs : Char → Bool}
    (plain : ∀ char, belongs char = true → Plain char) (text : List Char) :
    Consumes text (text.dropWhile belongs) := by
  refine ⟨text.takeWhile belongs, List.takeWhile_append_dropWhile.symm, neutral_of_plain ?_⟩
  exact fun char member => plain char (List.mem_takeWhile_imp member)

theorem consumes_dropBlanks (text : List Char) : Consumes text (Json.dropBlanks text) := by
  refine consumes_dropWhile (fun char blank => ?_) text
  unfold Json.isBlank at blank
  simp only [Bool.or_eq_true, decide_eq_true_eq] at blank
  rcases blank with ((rfl | rfl) | rfl) | rfl <;> decide

/-! ### Strings -/

theorem run_quoted_raw {char : Char} (noQuote : char ≠ '"') (noEscape : char ≠ '\\') (opened : Nat)
    (rest : List Char) :
    Scan.run ⟨.quoted, opened⟩ (char :: rest) = Scan.run ⟨.quoted, opened⟩ rest := by
  rw [Scan.run, Scan.step]
  simp only [if_neg noQuote, if_neg noEscape]

theorem run_quoted_escape (letter : Char) (opened : Nat) (rest : List Char) :
    Scan.run ⟨.quoted, opened⟩ ('\\' :: letter :: rest) = Scan.run ⟨.quoted, opened⟩ rest :=
  rfl

theorem hexDigit_ne {digit : Char} {value : Nat} (read : Digits.hexValue? digit = some value) :
    digit ≠ '"' ∧ digit ≠ '\\' := by
  constructor
  · rintro rfl
    cases read
  · rintro rfl
    cases read

/-- The four digits of an escape mean nothing to the scan of a string. -/
theorem run_quoted_hex {first second third fourth : Char} {code : Nat}
    (value : Digits.hexValue4? first second third fourth = some code) (opened : Nat)
    (rest : List Char) :
    Scan.run ⟨.quoted, opened⟩ ('\\' :: 'u' :: first :: second :: third :: fourth :: rest) =
      Scan.run ⟨.quoted, opened⟩ rest := by
  obtain ⟨_, firstRead, value⟩ := Option.bind_eq_some_iff.mp value
  obtain ⟨_, secondRead, value⟩ := Option.bind_eq_some_iff.mp value
  obtain ⟨_, thirdRead, value⟩ := Option.bind_eq_some_iff.mp value
  obtain ⟨_, fourthRead, _⟩ := Option.bind_eq_some_iff.mp value
  rw [run_quoted_escape, run_quoted_raw (hexDigit_ne firstRead).1 (hexDigit_ne firstRead).2,
    run_quoted_raw (hexDigit_ne secondRead).1 (hexDigit_ne secondRead).2,
    run_quoted_raw (hexDigit_ne thirdRead).1 (hexDigit_ne thirdRead).2,
    run_quoted_raw (hexDigit_ne fourthRead).1 (hexDigit_ne fourthRead).2]

/-- The scan leaves a string where the reader of strings does. -/
theorem run_quoted_of_codes? (text : List Char) {codes : List Nat} {rest : List Char}
    (read : Quoted.codes? text = some (codes, rest)) :
    ∃ taken, text = taken ++ rest ∧
      ∀ opened, Scan.run ⟨.quoted, opened⟩ taken = some ⟨.between, opened⟩ := by
  induction text using Quoted.codes?.induct generalizing codes with
  | case1 => cases read
  | case2 after =>
    rw [Quoted.codes?] at read
    cases read
    exact ⟨['"'], rfl, fun _ => rfl⟩
  | case3 first second third fourth after inductionHypothesis =>
    rw [Quoted.codes?] at read
    obtain ⟨code, value, read⟩ := Option.bind_eq_some_iff.mp read
    obtain ⟨⟨others, left⟩, othersRead, same⟩ := Option.bind_eq_some_iff.mp read
    cases same
    obtain ⟨taken, rfl, closed⟩ := inductionHypothesis othersRead
    exact ⟨'\\' :: 'u' :: first :: second :: third :: fourth :: taken, rfl, fun opened =>
      (run_quoted_hex value opened taken).trans (closed opened)⟩
  | case4 letter after notHex inductionHypothesis =>
    rw [Quoted.codes?.eq_4 letter after notHex] at read
    obtain ⟨code, value, read⟩ := Option.bind_eq_some_iff.mp read
    obtain ⟨⟨others, left⟩, othersRead, same⟩ := Option.bind_eq_some_iff.mp read
    cases same
    obtain ⟨taken, rfl, closed⟩ := inductionHypothesis othersRead
    exact ⟨'\\' :: letter :: taken, rfl, closed⟩
  | case5 char after noQuote noHex noShort control =>
    rw [Quoted.codes?.eq_5 char after noQuote noHex noShort, if_pos control] at read
    cases read
  | case6 char after noQuote noHex noShort printable inductionHypothesis =>
    rw [Quoted.codes?.eq_5 char after noQuote noHex noShort, if_neg printable] at read
    obtain ⟨⟨others, left⟩, othersRead, same⟩ := Option.bind_eq_some_iff.mp read
    cases same
    -- A backslash before any letter is an escape, and at the end of the text nothing is read.
    have noEscape : char ≠ '\\' := by
      rintro rfl
      cases after with
      | nil => cases othersRead
      | cons letter more => exact noShort letter more rfl rfl
    obtain ⟨taken, rfl, closed⟩ := inductionHypothesis othersRead
    exact ⟨char :: taken, rfl, fun opened =>
      (run_quoted_raw noQuote noEscape opened taken).trans (closed opened)⟩

theorem neutral_of_quoted {taken : List Char}
    (closed : ∀ opened, Scan.run ⟨.quoted, opened⟩ taken = some ⟨.between, opened⟩) :
    Neutral ('"' :: taken) :=
  fun opened _ => closed opened

theorem consumes_quoted {text rest : List Char} {string : String}
    (read : Quoted.read? text = some (string, rest)) : Consumes ('"' :: text) rest := by
  obtain ⟨⟨codes, left⟩, codesRead, read⟩ := Option.bind_eq_some_iff.mp read
  obtain ⟨chars, _, same⟩ := Option.bind_eq_some_iff.mp read
  cases same
  obtain ⟨taken, rfl, closed⟩ := run_quoted_of_codes? text codesRead
  exact ⟨'"' :: taken, rfl, neutral_of_quoted closed⟩

/-! ### Numbers -/

theorem consumes_digits {text digits rest : List Char}
    (read : Digits.split? text = some (digits, rest)) : Consumes text rest := by
  unfold Digits.split? at read
  split at read
  · cases read
  · cases read
    refine consumes_dropWhile (fun char digit => ?_) text
    refine ⟨?_, ?_, ?_⟩
    · rintro rfl
      cases digit
    · rintro (rfl | rfl) <;> cases digit
    · rintro (rfl | rfl) <;> cases digit

theorem consumes_fraction {text fraction rest : List Char}
    (read : Literal.readFraction? text = some (fraction, rest)) : Consumes text rest := by
  unfold Literal.readFraction? at read
  split at read
  · exact (consumes_char (by decide) _).trans (consumes_digits read)
  · cases read
    exact .refl _

theorem consumes_exponentSize {text rest : List Char} {size : Int}
    (read : Literal.readExponentSize? text = some (size, rest)) : Consumes text rest := by
  obtain ⟨⟨digits, left⟩, digitsRead, same⟩ := Option.bind_eq_some_iff.mp read
  cases same
  exact consumes_digits digitsRead

theorem consumes_signedExponent {text rest : List Char} {exponent : Option Int}
    (read : Literal.readSignedExponent? text = some (exponent, rest)) : Consumes text rest := by
  unfold Literal.readSignedExponent? at read
  split at read
  all_goals
    obtain ⟨⟨size, left⟩, sizeRead, same⟩ := Option.bind_eq_some_iff.mp read
    cases same
  · exact (consumes_char (by decide) _).trans (consumes_exponentSize sizeRead)
  · exact (consumes_char (by decide) _).trans (consumes_exponentSize sizeRead)
  · exact consumes_exponentSize sizeRead

theorem consumes_exponent {text rest : List Char} {exponent : Option Int}
    (read : Literal.readExponent? text = some (exponent, rest)) : Consumes text rest := by
  unfold Literal.readExponent? at read
  split at read
  · exact (consumes_char (by decide) _).trans (consumes_signedExponent read)
  · exact (consumes_char (by decide) _).trans (consumes_signedExponent read)
  · cases read
    exact .refl _

theorem consumes_unsigned {negative : Bool} {text rest : List Char} {literal : Literal}
    (read : Literal.readUnsigned? negative text = some (literal, rest)) : Consumes text rest := by
  obtain ⟨⟨whole, afterWhole⟩, wholeRead, read⟩ := Option.bind_eq_some_iff.mp read
  simp only at read
  split at read
  · cases read
  obtain ⟨⟨fraction, afterFraction⟩, fractionRead, read⟩ := Option.bind_eq_some_iff.mp read
  obtain ⟨⟨exponent, afterExponent⟩, exponentRead, same⟩ := Option.bind_eq_some_iff.mp read
  cases same
  exact ((consumes_digits wholeRead).trans (consumes_fraction fractionRead)).trans
    (consumes_exponent exponentRead)

theorem consumes_literal {text rest : List Char} {literal : Literal}
    (read : Literal.read? text = some (literal, rest)) : Consumes text rest := by
  unfold Literal.read? at read
  split at read
  · exact (consumes_char (by decide) _).trans (consumes_unsigned read)
  · exact consumes_unsigned read

/-! ### Documents -/

theorem consumes_word {word text rest : List Char} {document other : Json}
    (each : word.all (fun char => decide (Plain char)) = true)
    (read : Json.readWord word document text = .ok (other, rest)) : Consumes text rest := by
  unfold Json.readWord at read
  split at read
  · rename_i starts
    cases read
    obtain ⟨left, rfl⟩ := List.isPrefixOf_iff_prefix.mp starts
    rw [List.drop_left]
    exact consumes_plain fun char member =>
      of_decide_eq_true (List.all_eq_true.mp each char member)
  · cases read

theorem consumes_number {text rest : List Char} {document : Json}
    (read : Json.readNumber text = .ok (document, rest)) : Consumes text rest := by
  obtain ⟨⟨literal, left⟩, literalRead, read⟩ := Traversal.bind_eq_ok.mp read
  obtain ⟨number, _, same⟩ := Traversal.bind_eq_ok.mp read
  cases same
  exact consumes_literal (Json.Fault.require_eq_ok.mp literalRead)

theorem consumes_scalar {text rest : List Char} {document : Json}
    (read : Json.readScalar text = .ok (document, rest)) : Consumes text rest := by
  unfold Json.readScalar at read
  split at read
  · exact (consumes_char (by decide) _).trans (consumes_word (by decide) read)
  · exact (consumes_char (by decide) _).trans (consumes_word (by decide) read)
  · exact (consumes_char (by decide) _).trans (consumes_word (by decide) read)
  · obtain ⟨⟨string, left⟩, stringRead, same⟩ := Traversal.bind_eq_ok.mp read
    cases same
    exact consumes_quoted (Json.Fault.require_eq_ok.mp stringRead)
  · exact consumes_number read

theorem consumes_name {text rest : List Char} {name : String}
    (read : Json.readName text = .ok (name, rest)) : Consumes text rest := by
  unfold Json.readName at read
  split at read
  · rename_i starts
    exact (starts ▸ consumes_dropBlanks text).trans
      (consumes_quoted (Json.Fault.require_eq_ok.mp read))
  · cases read

theorem consumes_colon {text rest : List Char} (read : Json.readColon text = .ok rest) :
    Consumes text rest := by
  unfold Json.readColon at read
  split at read
  · rename_i starts
    cases read
    exact (starts ▸ consumes_dropBlanks text).trans (consumes_char (by decide) _)
  · cases read

/-! ### Containers -/

section Containers

variable {Value : Type} {close : Char} {value : List Char → Except Json.Fault (Value × List Char)}
  {text after : List Char} {items : List Value}

theorem consumes_series
    (each : ∀ text item rest, value text = .ok (item, rest) → Consumes text rest)
    (series : Json.Series close value text items after) : Consumes text (close :: after) := by
  induction series with
  | @last text rest after item read closed =>
    exact (each text item rest read).trans (closed ▸ consumes_dropBlanks rest)
  | @more text rest next after item items read separated others inductionHypothesis =>
    exact ((each text item rest read).trans (separated ▸ consumes_dropBlanks rest)).trans
      ((consumes_char (by decide) next).trans inductionHypothesis)

theorem consumes_enclosed
    (each : ∀ text item rest, value text = .ok (item, rest) → Consumes text rest)
    (enclosed : Json.Enclosed close value text items after) : Consumes text (close :: after) := by
  cases enclosed with
  | empty closed => exact closed ▸ consumes_dropBlanks text
  | nonempty starts unclosed series =>
    exact (starts ▸ consumes_dropBlanks text).trans (consumes_series each series)

/-- A container is taken off with both its brackets. -/
theorem consumes_container {opening : Char} (opens : opening = '\x7b' ∨ opening = '[')
    (closes : close = '\x7d' ∨ close = ']') (inside : Consumes text (close :: after)) :
    Consumes (opening :: text) after := by
  obtain ⟨taken, rfl, neutral⟩ := inside
  refine ⟨opening :: (taken ++ [close]), ?_, neutral.bracketed opens closes⟩
  rw [List.cons_append, List.append_assoc, List.singleton_append]

end Containers

theorem consumes_pair {value : List Char → Except Json.Fault (Json × List Char)}
    (each : ∀ text item rest, value text = .ok (item, rest) → Consumes text rest)
    {text rest : List Char} {member : String × Json}
    (read : Json.readPair value text = .ok (member, rest)) : Consumes text rest := by
  obtain ⟨afterName, afterColon, nameRead, colonRead, valueRead⟩ := Json.readPair_eq_ok.mp read
  exact ((consumes_name nameRead).trans (consumes_colon colonRead)).trans (each _ _ _ valueRead)

/-- A document that is read leaves the scan as it was. -/
theorem consumes_read {depth : Nat} {text rest : List Char} {document : Json}
    (read : Json.read depth text = .ok (document, rest)) : Consumes text rest := by
  induction depth generalizing text rest document with
  | zero => exact (consumes_dropBlanks text).trans (consumes_scalar read)
  | succ depth inductionHypothesis =>
    refine (consumes_dropBlanks text).trans ?_
    rw [Json.read] at read
    split at read
    · rename_i starts
      obtain ⟨⟨items, left⟩, itemsRead, same⟩ := Traversal.bind_eq_ok.mp read
      cases same
      obtain ⟨_, enclosed, _⟩ :=
        Json.enclosed_of_foldElements (Json.follows_readItem _) trivial itemsRead
      rw [starts]
      exact consumes_container (by decide) (by decide)
        (consumes_enclosed (fun _ _ _ => inductionHypothesis) enclosed)
    · rename_i starts
      obtain ⟨⟨members, left⟩, membersRead, same⟩ := Traversal.bind_eq_ok.mp read
      cases same
      obtain ⟨_, enclosed, _⟩ :=
        Json.enclosed_of_foldElements (Json.follows_readMember _) trivial membersRead
      rw [starts]
      exact consumes_container (by decide) (by decide)
        (consumes_enclosed (fun _ _ _ => consumes_pair fun _ _ _ => inductionHypothesis) enclosed)
    · exact consumes_scalar read

/-! ### Where a split falls -/

theorem splitBalanced_of_run {scan next : Scan} {body rest : List Char} {last : Char}
    (inside : scan.run body = some next) (outside : next.step last = none) :
    splitBalanced scan (body ++ last :: rest) = some (body ++ [last], rest) := by
  induction body generalizing scan with
  | nil =>
    cases inside
    rw [List.nil_append, splitBalanced, outside]
    rfl
  | cons char body inductionHypothesis =>
    rw [Scan.run] at inside
    rw [List.cons_append, splitBalanced]
    cases stepped : scan.step char with
    | none =>
      rw [stepped] at inside
      cases inside
    | some between =>
      rw [stepped] at inside
      simp only [inductionHypothesis inside, Option.map_some, List.cons_append]

/-- A text is split behind the first character that the scan does not go past. -/
theorem run_of_splitBalanced {scan : Scan} {text object rest : List Char}
    (split : splitBalanced scan text = some (object, rest)) :
    ∃ body last next, object = body ++ [last] ∧ text = object ++ rest ∧
      scan.run body = some next ∧ next.step last = none := by
  induction text generalizing scan object with
  | nil => cases split
  | cons char text inductionHypothesis =>
    rw [splitBalanced] at split
    cases stepped : scan.step char with
    | none =>
      rw [stepped] at split
      cases split
      exact ⟨[], char, scan, rfl, rfl, rfl, stepped⟩
    | some between =>
      rw [stepped] at split
      obtain ⟨⟨others, left⟩, othersSplit, same⟩ := Option.map_eq_some_iff.mp split
      cases same
      obtain ⟨body, last, next, rfl, rfl, inside, outside⟩ := inductionHypothesis othersSplit
      refine ⟨char :: body, last, next, rfl, rfl, ?_, outside⟩
      rw [Scan.run, stepped]
      exact inside

/-- Only a closing bracket ends a split. -/
theorem closes_of_step {scan : Scan} {char : Char} (outside : scan.step char = none) :
    char = '\x7d' ∨ char = ']' := by
  unfold Scan.step at outside
  split at outside
  · cases outside
  · split at outside
    · cases outside
    · split at outside <;> cases outside
  · split at outside
    · cases outside
    split at outside
    · cases outside
    split at outside
    · assumption
    · cases outside

/-- A text in braces is split behind its own brace. -/
theorem splitBalanced_braced {inner : List Char} (neutral : Neutral inner) (more : List Char) :
    splitBalanced ⟨.between, 0⟩ ('\x7b' :: (inner ++ ['\x7d']) ++ more) =
      some ('\x7b' :: (inner ++ ['\x7d']), more) := by
  have inside : Scan.run ⟨.between, 0⟩ ('\x7b' :: inner) = some ⟨.between, 1⟩ :=
    neutral 1 Nat.one_pos
  rw [List.cons_append, List.append_assoc, List.singleton_append]
  exact splitBalanced_of_run inside rfl

/-- An object at the start of a text is what the text is split behind. -/
theorem splitBalanced_of_read {depth : Nat} {inner rest : List Char} {document : Json}
    (read : Json.read depth ('\x7b' :: inner) = .ok (document, rest)) :
    ∃ object, '\x7b' :: inner = object ++ rest ∧
      ∀ more, splitBalanced ⟨.between, 0⟩ (object ++ more) = some (object, more) := by
  cases depth with
  | zero => cases read
  | succ depth =>
    obtain ⟨⟨members, left⟩, membersRead, same⟩ := Traversal.bind_eq_ok.mp read
    cases same
    obtain ⟨_, enclosed, _⟩ :=
      Json.enclosed_of_foldElements (Json.follows_readMember _) trivial membersRead
    obtain ⟨taken, rfl, neutral⟩ := consumes_enclosed
      (fun _ _ _ => consumes_pair fun _ _ _ => consumes_read) enclosed
    refine ⟨'\x7b' :: (taken ++ ['\x7d']), ?_, splitBalanced_braced neutral⟩
    rw [List.cons_append, List.append_assoc, List.singleton_append]

end Outline

end ListQuery
