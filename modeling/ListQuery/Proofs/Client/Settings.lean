/-
This file proves which environments hold settings. The base URL has to be there and
to be more than white space, and is kept as it is. The timeout may be missing; if it
is given, it has to be a number in decimal digits that fits 64 bits, and it is kept
as that number. What is wrong with the base URL is told before what is wrong with
the timeout.
-/

import ListQuery.Client.Settings
import ListQuery.Proofs.Count

namespace ListQuery

namespace Settings

variable {raw : String} {number : Nat} {sign digits : List Char}

/-! ### Numbers in settings -/

/-- A text gives a number: decimal digits, with or without a plus sign, and white space around. -/
inductive Gives : String → Nat → Prop
  | digits {before sign digits after : List Char}
      (spaceBefore : ∀ char ∈ before, Text.isSpace char = true)
      (signs : sign = [] ∨ sign = ['+']) (isDigits : Json.IsDigits digits)
      (spaceAfter : ∀ char ∈ after, Text.isSpace char = true) :
      Gives (String.ofList (before ++ (sign ++ digits) ++ after)) (Digits.value digits)

theorem isSpace_of_isDigit {char : Char} (isDigit : char.isDigit = true) :
    Text.isSpace char = false := by
  have apart : Text.spaces.any Char.isDigit = false := by decide
  rw [List.any_eq_false] at apart
  rw [Text.isSpace, ← Bool.not_eq_true, List.contains_iff_mem]
  exact fun member => apart char member isDigit

theorem unsigned_append (signs : sign = [] ∨ sign = ['+']) (isDigits : Json.IsDigits digits) :
    unsigned (sign ++ digits) = digits := by
  rcases signs with rfl | rfl
  -- A plus sign would be taken off, but it is no digit.
  · rw [List.nil_append, unsigned.eq_2]
    rintro rest rfl
    exact Bool.noConfusion (isDigits.digits '+' List.mem_cons_self)
  · rfl

theorem exists_sign (text : List Char) :
    ∃ sign, (sign = [] ∨ sign = ['+']) ∧ text = sign ++ unsigned text := by
  unfold unsigned
  split
  · exact ⟨['+'], .inr rfl, rfl⟩
  · exact ⟨[], .inl rfl, rfl⟩

/-- Digits and their sign are what is left when the white space around them is taken off. -/
theorem trim_signed {before after : List Char}
    (spaceBefore : ∀ char ∈ before, Text.isSpace char = true)
    (signs : sign = [] ∨ sign = ['+']) (isDigits : Json.IsDigits digits)
    (spaceAfter : ∀ char ∈ after, Text.isSpace char = true) :
    Text.trim (before ++ (sign ++ digits) ++ after) = sign ++ digits := by
  have solid : ∀ char ∈ sign ++ digits, Text.isSpace char = false := by
    intro char member
    rcases List.mem_append.mp member with inSign | inDigits
    · rcases signs with rfl | rfl
      · cases inSign
      · rw [List.mem_singleton.mp inSign]
        decide
    · exact isSpace_of_isDigit (isDigits.digits char inDigits)
  refine Text.trim_append (List.append_ne_nil_of_right_ne_nil _ isDigits.nonempty) spaceBefore
    spaceAfter (fun char head => solid char (List.mem_of_head? head)) fun char last => ?_
  exact solid char (List.mem_reverse.mp (List.mem_of_head? last))

/-- A number is given by the digits that are left when white space and sign are taken off. -/
theorem gives_iff : Gives raw number ↔ Json.IsDigits (unsigned (Text.trim raw.toList)) ∧
    Digits.value (unsigned (Text.trim raw.toList)) = number := by
  constructor
  · rintro ⟨spaceBefore, signs, isDigits, spaceAfter⟩
    rw [String.toList_ofList, trim_signed spaceBefore signs isDigits spaceAfter,
      unsigned_append signs isDigits]
    exact ⟨isDigits, rfl⟩
  · rintro ⟨isDigits, rfl⟩
    obtain ⟨before, after, whole, spaceBefore, spaceAfter⟩ := Text.exists_trim raw.toList
    obtain ⟨sign, signs, signed⟩ := exists_sign (Text.trim raw.toList)
    have given := Gives.digits spaceBefore signs isDigits spaceAfter
    rwa [← signed, ← whole, String.ofList_toList] at given

theorem Gives.unique {other : Nat} (gives : Gives raw number) (otherGives : Gives raw other) :
    number = other :=
  (gives_iff.mp gives).2.symm.trans (gives_iff.mp otherGives).2

/-- A setting is read as a count exactly when it gives the number of that count. -/
theorem countOfText?_eq_some {count : Count} :
    countOfText? raw = some count ↔ Gives raw count.toNat :=
  Count.ofDigits?_eq_some.trans gives_iff.symm

theorem countOfText?_eq_none :
    countOfText? raw = none ↔ ∀ number < UInt64.size, ¬Gives raw number := by
  rw [Option.eq_none_iff_forall_ne_some]
  constructor
  · intro refused number fits gives
    exact refused (UInt64.ofNat number)
      (countOfText?_eq_some.mpr ((UInt64.toNat_ofNat_of_lt' fits).symm ▸ gives))
  · exact fun beyond count read => beyond _ count.toNat_lt (countOfText?_eq_some.mp read)

/-- Every count is given by its text, with white space around it. -/
theorem gives_text {before after : List Char}
    (spaceBefore : ∀ char ∈ before, Text.isSpace char = true)
    (spaceAfter : ∀ char ∈ after, Text.isSpace char = true) (count : Count) :
    Gives (String.ofList before ++ count.text ++ String.ofList after) count.toNat := by
  have isDigits : Json.IsDigits (Digits.ofNat count.toNat) :=
    ⟨Nat.toDigits_ne_nil, Digits.isDigit_of_mem_ofNat _⟩
  have given := Gives.digits spaceBefore (.inl rfl) isDigits spaceAfter
  rwa [List.nil_append, String.ofList_append, String.ofList_append, Digits.value_ofNat] at given

/-! ### Environments -/

section Environment

variable {lookup : String → Option String} {baseUrl : String}

/-- The base URL in an environment, which is more than white space. -/
def HoldsBaseUrl (lookup : String → Option String) (baseUrl : String) : Prop :=
  lookup baseUrlVariable = some baseUrl ∧ ∃ char ∈ baseUrl.toList, Text.isSpace char = false

/-- The timeout in an environment, in milliseconds: half a minute unless a number is given. -/
inductive HoldsTimeout (lookup : String → Option String) : Nat → Prop
  | standard (absent : lookup timeoutVariable = none) : HoldsTimeout lookup 30000
  | given {raw : String} {number : Nat} (found : lookup timeoutVariable = some raw)
      (gives : Gives raw number) : HoldsTimeout lookup number

theorem HoldsTimeout.unique {other : Nat} (holds : HoldsTimeout lookup number)
    (otherHolds : HoldsTimeout lookup other) : number = other := by
  cases holds with
  | standard absent =>
    cases otherHolds with
    | standard => rfl
    | given found => cases absent.symm.trans found
  | given found gives =>
    cases otherHolds with
    | standard absent => cases absent.symm.trans found
    | given otherFound otherGives =>
      cases found.symm.trans otherFound
      exact gives.unique otherGives

/-- What is wrong with an environment. The timeout is only looked at once there is a base URL. -/
inductive Faulty (lookup : String → Option String) : SettingsFault → Prop
  | baseUrl (missing : ¬∃ baseUrl, HoldsBaseUrl lookup baseUrl) : Faulty lookup .baseUrlMissing
  | timeout {baseUrl raw : String} (holds : HoldsBaseUrl lookup baseUrl)
      (found : lookup timeoutVariable = some raw)
      (beyond : ∀ number < UInt64.size, ¬Gives raw number) : Faulty lookup (.timeoutMalformed raw)

/-- An environment holds a base URL and a timeout that fits, or something is wrong with it. -/
theorem holds_or_faulty (lookup : String → Option String) :
    (∃ baseUrl, ∃ count : Count,
      HoldsBaseUrl lookup baseUrl ∧ HoldsTimeout lookup count.toNat) ∨
      ∃ fault, Faulty lookup fault := by
  by_cases base : ∃ baseUrl, HoldsBaseUrl lookup baseUrl
  case neg => exact .inr ⟨_, .baseUrl base⟩
  obtain ⟨baseUrl, holds⟩ := base
  cases found : lookup timeoutVariable with
  | none => exact .inl ⟨baseUrl, 30000, holds, .standard found⟩
  | some raw =>
    cases read : countOfText? raw with
    | some count =>
      exact .inl ⟨baseUrl, count, holds, .given found (countOfText?_eq_some.mp read)⟩
    | none => exact .inr ⟨_, .timeout holds found (countOfText?_eq_none.mp read)⟩

/-! ### Reading the settings -/

theorem ofEnvironment_of_missing (missing : ¬∃ baseUrl, HoldsBaseUrl lookup baseUrl) :
    ofEnvironment lookup = .error .baseUrlMissing := by
  rw [ofEnvironment]
  cases found : lookup baseUrlVariable with
  | none => rfl
  | some baseUrl =>
    have blank : Text.isBlank baseUrl = true := by
      rw [← Bool.not_eq_false, Text.isBlank_eq_false]
      exact fun solid => missing ⟨baseUrl, found, solid⟩
    simp only []
    rw [if_pos blank]
    rfl

/-- Once there is a base URL, the timeout decides. -/
theorem ofEnvironment_of_holds (holds : HoldsBaseUrl lookup baseUrl) :
    ofEnvironment lookup =
      match lookup timeoutVariable with
      | none => .ok ⟨baseUrl, 30000⟩
      | some raw =>
        match countOfText? raw with
        | some count => .ok ⟨baseUrl, count⟩
        | none => .error (.timeoutMalformed raw) := by
  obtain ⟨found, solid⟩ := holds
  rw [ofEnvironment, found]
  simp only []
  rw [if_neg (Text.isBlank_eq_false.mpr solid ▸ Bool.false_ne_true)]
  rfl

theorem ofEnvironment_of_timeout {count : Count} (holds : HoldsBaseUrl lookup baseUrl)
    (timeout : HoldsTimeout lookup count.toNat) : ofEnvironment lookup = .ok ⟨baseUrl, count⟩ := by
  rw [ofEnvironment_of_holds holds]
  generalize number_eq : count.toNat = number at timeout
  cases timeout with
  | standard absent =>
    have standard : count = 30000 := UInt64.toNat_inj.mp number_eq
    rw [absent, standard]
  | given found gives =>
    rw [found]
    simp only []
    rw [countOfText?_eq_some.mpr (number_eq ▸ gives)]

theorem ofEnvironment_of_faulty {fault : SettingsFault} (faulty : Faulty lookup fault) :
    ofEnvironment lookup = .error fault := by
  cases faulty with
  | baseUrl missing => exact ofEnvironment_of_missing missing
  | timeout holds found beyond =>
    rw [ofEnvironment_of_holds holds, found]
    simp only []
    rw [countOfText?_eq_none.mpr beyond]

theorem ofEnvironment_eq_ok {settings : Settings} : ofEnvironment lookup = .ok settings ↔
    HoldsBaseUrl lookup settings.baseUrl ∧ HoldsTimeout lookup settings.timeoutMs.toNat := by
  refine ⟨fun read => ?_, fun ⟨holds, timeout⟩ => ofEnvironment_of_timeout holds timeout⟩
  rcases holds_or_faulty lookup with ⟨baseUrl, count, holds, timeout⟩ | ⟨fault, faulty⟩
  · cases read.symm.trans (ofEnvironment_of_timeout holds timeout)
    exact ⟨holds, timeout⟩
  · cases read.symm.trans (ofEnvironment_of_faulty faulty)

theorem ofEnvironment_eq_error {fault : SettingsFault} :
    ofEnvironment lookup = .error fault ↔ Faulty lookup fault := by
  refine ⟨fun refused => ?_, ofEnvironment_of_faulty⟩
  rcases holds_or_faulty lookup with ⟨baseUrl, count, holds, timeout⟩ | ⟨other, faulty⟩
  · cases refused.symm.trans (ofEnvironment_of_timeout holds timeout)
  · cases refused.symm.trans (ofEnvironment_of_faulty faulty)
    exact faulty

/-- The settings in an environment, whatever its variables hold. There are settings exactly when
there is a base URL and the timeout is a number that fits 64 bits; they keep the base URL as it is,
and the timeout as just that number. Otherwise the base URL is told to be missing, or, if there is
one, the timeout to be malformed. And every count is a timeout, between any white space. -/
theorem ofEnvironment_exact (lookup : String → Option String) :
    ((∃ settings, ofEnvironment lookup = .ok settings) ↔
      (∃ baseUrl, HoldsBaseUrl lookup baseUrl) ∧
        ∃ number < UInt64.size, HoldsTimeout lookup number) ∧
    (∀ settings, ofEnvironment lookup = .ok settings →
      lookup baseUrlVariable = some settings.baseUrl ∧
        ∀ number, HoldsTimeout lookup number ↔ number = settings.timeoutMs.toNat) ∧
    (∀ fault, ofEnvironment lookup = .error fault ↔ Faulty lookup fault) ∧
    ∀ baseUrl before after, ∀ count : Count, HoldsBaseUrl lookup baseUrl →
      (∀ char ∈ before, Text.isSpace char = true) → (∀ char ∈ after, Text.isSpace char = true) →
      lookup timeoutVariable = some (String.ofList before ++ count.text ++ String.ofList after) →
      ofEnvironment lookup = .ok ⟨baseUrl, count⟩ := by
  refine ⟨⟨?_, ?_⟩, ?_, fun fault => ofEnvironment_eq_error, ?_⟩
  · rintro ⟨settings, read⟩
    obtain ⟨holds, timeout⟩ := ofEnvironment_eq_ok.mp read
    exact ⟨⟨_, holds⟩, _, settings.timeoutMs.toNat_lt, timeout⟩
  · rintro ⟨⟨baseUrl, holds⟩, number, fits, timeout⟩
    rw [← UInt64.toNat_ofNat_of_lt' fits] at timeout
    exact ⟨_, ofEnvironment_of_timeout holds timeout⟩
  · intro settings read
    obtain ⟨holds, timeout⟩ := ofEnvironment_eq_ok.mp read
    exact ⟨holds.1, fun number => ⟨fun other => other.unique timeout, fun same => same ▸ timeout⟩⟩
  · intro baseUrl before after count holds spaceBefore spaceAfter found
    exact ofEnvironment_of_timeout holds (.given found (gives_text spaceBefore spaceAfter count))

/-- An environment that sets nothing but a base URL and a timeout. -/
def environmentOf (baseUrl timeout : String) (name : String) : Option String :=
  if name = baseUrlVariable then some baseUrl
  else if name = timeoutVariable then some timeout
  else none

/-- The largest count is a timeout, and the number after it is none rather than zero. A base URL
that is white space only is told of first. -/
theorem ofEnvironment_exact_largest :
    ofEnvironment (environmentOf " http://api/" "\t18446744073709551615\u2003") =
        .ok ⟨" http://api/", 18446744073709551615⟩ ∧
      ofEnvironment (environmentOf " http://api/" "18446744073709551616") =
        .error (.timeoutMalformed "18446744073709551616") ∧
      ofEnvironment (environmentOf "\u2003" "soon") = .error .baseUrlMissing := by
  have solid : ∃ char ∈ " http://api/".toList, Text.isSpace char = false :=
    ⟨'h', by decide, by decide⟩
  have beyond : ∀ number < UInt64.size, ¬Gives "18446744073709551616" number := by
    intro number fits gives
    have value : UInt64.size = number := (gives_iff.mp gives).2
    exact absurd fits (value ▸ Nat.lt_irrefl _)
  have missing : ¬∃ baseUrl, HoldsBaseUrl (environmentOf "\u2003" "soon") baseUrl := by
    rintro ⟨_, ⟨⟩, char, member, visible⟩
    rw [List.mem_singleton.mp member] at visible
    exact absurd visible (by decide)
  obtain ⟨_, _, _, configured⟩ :=
    ofEnvironment_exact (environmentOf " http://api/" "\t18446744073709551615\u2003")
  obtain ⟨_, _, refused, _⟩ :=
    ofEnvironment_exact (environmentOf " http://api/" "18446744073709551616")
  obtain ⟨_, _, first, _⟩ := ofEnvironment_exact (environmentOf "\u2003" "soon")
  exact ⟨configured _ ['\t'] ['\u2003'] 18446744073709551615 ⟨rfl, solid⟩
      (List.forall_mem_singleton.mpr rfl) (List.forall_mem_singleton.mpr rfl) rfl,
    (refused _).mpr (.timeout ⟨rfl, solid⟩ rfl beyond), (first _).mpr (.baseUrl missing)⟩

end Environment

end Settings

end ListQuery
