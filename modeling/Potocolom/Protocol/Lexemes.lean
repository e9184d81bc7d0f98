import Potocolom.Protocol.Canonical

/-! # The lexemes of a canonical text

What `canonical_bytes` writes for a string, an integer or a float, the scanner reads back
as that value, and stops where the lexeme ends. -/

namespace Potocolom.Protocol

variable {platform : Platform}

/-! ## Token by token -/

/-- What may follow a value in a canonical text. -/
def Stops : List Char → Prop
  | [] => True
  | c :: _ => c = ',' ∨ c = ']' ∨ c = '}'

theorem tokens_skip (text rest : List Char) :
    tokens platform text.length (text ++ rest) = tokens platform 0 rest := by
  induction text with
  | nil => rfl
  | cons c text ih => exact ih

/-- A token that takes `text` after its first character. -/
theorem tokens_scan {c : Char} {text rest : List Char} {token : Token}
    (hspace : isSpace c = false) (hscan : scan platform c (text ++ rest) = some (token, text.length)) :
    tokens platform 0 (c :: text ++ rest) = token :: tokens platform 0 rest := by
  rw [List.cons_append, tokens, hspace, hscan]
  simp [tokens_skip]

/-! ## Strings -/

theorem hexDigit_hexChar : ∀ n < 16, hexDigit (hexChar n) = some n := by
  decide

/-- A character of a string was read, in `n` characters of the text. -/
def readChar (point n : Nat) (found : Option (List Nat × Nat)) : Option (List Nat × Nat) :=
  found.map fun rest => (point :: rest.1, rest.2 + n)

/-- A one-letter escape. -/
theorem scanString_letter {letter : Char} {point : Nat} (hletter : letter ≠ 'u')
    (hpoint : escaped letter = some point) (rest : List Char) :
    scanString ('\\' :: letter :: rest) = readChar point 2 (scanString rest) := by
  rw [scanString, hpoint]
  · cases scanString rest <;> rfl
  · rintro a b c d rest' rfl
    exact absurd rfl hletter

/-- The escape of a control character. -/
theorem scanString_control {n : Nat} (h : n < 32) (rest : List Char) :
    scanString ('\\' :: 'u' :: '0' :: '0' :: hexChar (n / 16) :: hexChar (n % 16) :: rest) =
      readChar n 6 (scanString rest) := by
  have hhigh := hexDigit_hexChar (n / 16) (by omega)
  have hlow := hexDigit_hexChar (n % 16) (by omega)
  have hzero : hexDigit '0' = some 0 := by decide
  have hpoint : hex4 '0' '0' (hexChar (n / 16)) (hexChar (n % 16)) = some n := by
    simp only [hex4, hzero, hhigh, hlow, Option.bind_eq_bind, Option.bind_some, Option.pure_def,
      Option.some.injEq]
    omega
  rw [scanString, hpoint]
  cases scanString rest <;> rfl

/-- A character that stands for itself. -/
theorem scanString_plain {c : Char} (hquote : c ≠ '"') (hback : c ≠ '\\') (hplain : ' ' ≤ c)
    (rest : List Char) : scanString (c :: rest) = readChar c.toNat 1 (scanString rest) := by
  rw [scanString]
  · simp only [guard, hplain, if_true]
    cases scanString rest <;> rfl
  · exact hquote
  · rintro a b c' d rest' rfl
    exact absurd rfl hback
  · rintro c' rest' rfl
    exact absurd rfl hback

/-- What `escape` writes is read as the character. -/
theorem scanString_escape (c : Char) (rest : List Char) :
    scanString (escape c ++ rest) = readChar c.toNat (escape c).length (scanString rest) := by
  have hletter : ∀ letter point, letter ≠ 'u' → escaped letter = some point → c.toNat = point →
      scanString (['\\', letter] ++ rest) =
        readChar c.toNat ['\\', letter].length (scanString rest) := by
    intro letter point hne hescaped hpoint
    rw [hpoint]
    exact scanString_letter hne hescaped rest
  unfold escape
  by_cases hquote : c = '"'
  · rw [if_pos hquote]
    exact hletter '"' 34 (by decide) (by decide) (by rw [hquote]; rfl)
  rw [if_neg hquote]
  by_cases hback : c = '\\'
  · rw [if_pos hback]
    exact hletter '\\' 92 (by decide) (by decide) (by rw [hback]; rfl)
  rw [if_neg hback]
  by_cases hline : c = '\n'
  · rw [if_pos hline]
    exact hletter 'n' 10 (by decide) (by decide) (by rw [hline]; rfl)
  rw [if_neg hline]
  by_cases hreturn : c = '\r'
  · rw [if_pos hreturn]
    exact hletter 'r' 13 (by decide) (by decide) (by rw [hreturn]; rfl)
  rw [if_neg hreturn]
  by_cases htab : c = '\t'
  · rw [if_pos htab]
    exact hletter 't' 9 (by decide) (by decide) (by rw [htab]; rfl)
  rw [if_neg htab]
  by_cases hfeed : c.toNat = 12
  · rw [if_pos hfeed]
    exact hletter 'f' 12 (by decide) (by decide) hfeed
  rw [if_neg hfeed]
  by_cases hbell : c.toNat = 8
  · rw [if_pos hbell]
    exact hletter 'b' 8 (by decide) (by decide) hbell
  rw [if_neg hbell]
  by_cases hcontrol : c < ' '
  · rw [if_pos hcontrol]
    exact scanString_control hcontrol rest
  · rw [if_neg hcontrol]
    exact scanString_plain hquote hback (Char.not_lt.1 hcontrol) rest

/-- A string body up to its closing quote. -/
theorem scanString_body (text rest : List Char) :
    scanString (text.flatMap escape ++ '"' :: rest) =
      some (text.map Char.toNat, (text.flatMap escape).length + 1) := by
  induction text with
  | nil => simp [scanString]
  | cons c text ih =>
    rw [List.flatMap_cons, List.append_assoc, scanString_escape, ih]
    simp only [readChar, Option.map_some, List.map_cons, List.length_append, Option.some.injEq,
      Prod.mk.injEq, true_and]
    omega

theorem not_isSurrogate (c : Char) : isSurrogate c.toNat = false := by
  have hvalid : c.toNat < 0xD800 ∨ 0xDFFF < c.toNat ∧ c.toNat < 0x110000 := c.valid
  simp only [isSurrogate, Bool.and_eq_false_iff, decide_eq_false_iff_not]
  omega

/-- Characters are no surrogates, so none are joined. -/
theorem joinSurrogates_chars (text : List Char) :
    joinSurrogates (text.map Char.toNat) = text.map Char.toNat := by
  induction text with
  | nil => rfl
  | cons c text ih =>
    cases text with
    | nil => rfl
    | cons d text =>
      have hc := not_isSurrogate c
      have hhigh : (decide (0xD800 ≤ c.toNat) && decide (c.toNat < 0xDC00)) = false := by
        simp only [isSurrogate, Bool.and_eq_false_iff, decide_eq_false_iff_not] at hc ⊢
        omega
      rw [List.map_cons, List.map_cons, joinSurrogates, hhigh]
      simp only [Bool.false_and, Bool.false_eq_true, if_false, List.cons.injEq, true_and]
      exact ih

theorem ofPoints_chars (text : List Char) :
    Text.ofPoints (text.map Char.toNat) = .scalars (String.ofList text) := by
  have hlone : ¬ (text.map Char.toNat).any isSurrogate = true := by
    simp [not_isSurrogate]
  unfold Text.ofPoints
  rw [dif_neg hlone, List.map_map]
  congr 2
  have hid : (Char.ofNat ∘ Char.toNat) = id := by
    funext c
    exact Char.ofNat_toNat c
  rw [hid, List.map_id]

/-- A quoted string is one token. -/
theorem tokens_quote (s : String) (rest : List Char) :
    tokens platform 0 ((quote s).toList ++ rest) =
      .value (.str (.scalars s)) :: tokens platform 0 rest := by
  have hquote : (quote s).toList = '"' :: (s.toList.flatMap escape ++ ['"']) := by
    simp [quote]
  rw [hquote]
  refine tokens_scan (by decide) ?_
  have hbody := scanString_body s.toList rest
  rw [List.append_assoc, List.singleton_append]
  simp only [scan, hbody, Option.bind_eq_bind, Option.bind_some, joinSurrogates_chars,
    ofPoints_chars, String.ofList_toList, Option.pure_def, List.length_append,
    List.length_singleton]

/-! ## Numbers -/

/-- One digit or more. -/
def IsDigits (text : List Char) : Prop := text ≠ [] ∧ ∀ c ∈ text, isDigit c = true

/-- The digits before the point. -/
def IsIntegral (text : List Char) : Prop :=
  text = ['0'] ∨ IsDigits text ∧ text.head? ≠ some '0'

def IsFraction (text : List Char) : Prop :=
  text = [] ∨ ∃ digits, IsDigits digits ∧ text = '.' :: digits

def IsExponent (text : List Char) : Prop :=
  text = [] ∨ ∃ digits, IsDigits digits ∧
    (text = 'e' :: digits ∨ text = 'e' :: '-' :: digits ∨ text = 'e' :: '+' :: digits)

/-- What `repr` writes for a float: a JSON number with a fraction or an exponent. -/
def IsFloatText (text : List Char) : Prop :=
  ∃ sign integral fraction exponent, text = sign ++ integral ++ fraction ++ exponent ∧
    (sign = [] ∨ sign = ['-']) ∧ IsIntegral integral ∧ IsFraction fraction ∧
    IsExponent exponent ∧ (fraction ≠ [] ∨ exponent ≠ [])

/-- Not a digit at the head. -/
def EndsDigits (rest : List Char) : Prop := ∀ c ∈ rest.head?, isDigit c = false

theorem takeWhile_digits {digits rest : List Char} (h : ∀ c ∈ digits, isDigit c = true)
    (hrest : EndsDigits rest) : (digits ++ rest).takeWhile isDigit = digits := by
  have hnil : rest.takeWhile isDigit = [] := by
    cases rest with
    | nil => rfl
    | cons c rest => simp [hrest c rfl]
  rw [List.takeWhile_append_of_pos h, hnil, List.append_nil]

theorem Stops.endsDigits {rest : List Char} (h : Stops rest) : EndsDigits rest := by
  cases rest with
  | nil =>
    intro c hc
    cases hc
  | cons c rest =>
    intro d hd
    cases hd
    rcases h with rfl | rfl | rfl <;> decide

theorem marked_digits {mark digits rest : List Char} (h : IsDigits digits)
    (hrest : EndsDigits rest) : marked mark (digits ++ rest) = mark ++ digits := by
  unfold marked
  rw [takeWhile_digits h.2 hrest]
  cases digits with
  | nil => exact absurd rfl h.1
  | cons c digits => rfl

theorem integral_append {digits rest : List Char} (h : IsIntegral digits)
    (hrest : EndsDigits rest) : integral (digits ++ rest) = some digits := by
  rcases h with rfl | ⟨⟨hne, hdigits⟩, hzero⟩
  · rfl
  · cases digits with
    | nil => exact absurd rfl hne
    | cons c digits =>
      have hc : c ≠ '0' := by
        rintro rfl
        exact hzero rfl
      rw [List.cons_append, integral]
      · rw [if_pos (hdigits c List.mem_cons_self)]
        rw [takeWhile_digits (fun d hd => hdigits d (List.mem_cons_of_mem _ hd)) hrest]
      · exact hc

theorem exponent_append {exp rest : List Char} (h : IsExponent exp) (hrest : Stops rest) :
    exponent (exp ++ rest) = exp := by
  rcases h with rfl | ⟨digits, hdigits, hexp⟩
  · -- no exponent: what follows is no `e`
    cases rest with
    | nil => rfl
    | cons c rest =>
      cases rest with
      | nil => rfl
      | cons d rest =>
        rcases hrest with rfl | rfl | rfl <;> rfl
  · rcases hexp with rfl | rfl | rfl
    · cases digits with
      | nil => exact absurd rfl hdigits.1
      | cons d digits =>
        have hd : isDigit d = true := hdigits.2 d List.mem_cons_self
        have hsign : ¬ (d = '+' || d = '-') = true := by
          intro heq
          simp only [Bool.or_eq_true, decide_eq_true_eq] at heq
          rcases heq with rfl | rfl <;> exact absurd hd (by decide)
        have hmarked : marked ['e'] (d :: digits ++ rest) = 'e' :: d :: digits :=
          marked_digits hdigits hrest.endsDigits
        simp only [List.cons_append, exponent, hsign]
        simpa using hmarked
    · exact marked_digits hdigits hrest.endsDigits
    · exact marked_digits hdigits hrest.endsDigits

/-- After the integral part and after a fraction comes no digit, and no point. -/
theorem exponent_ends {exp rest : List Char} (h : IsExponent exp) (hrest : Stops rest) :
    EndsDigits (exp ++ rest) ∧ (exp ++ rest).head? ≠ some '.' := by
  rcases h with rfl | ⟨digits, hdigits, hexp⟩
  · refine ⟨hrest.endsDigits, ?_⟩
    cases rest with
    | nil => simp
    | cons c rest => rcases hrest with rfl | rfl | rfl <;> simp
  · rcases hexp with rfl | rfl | rfl
    · exact ⟨by intro c hc; cases hc; decide, by simp⟩
    · exact ⟨by intro c hc; cases hc; decide, by simp⟩
    · exact ⟨by intro c hc; cases hc; decide, by simp⟩

theorem fraction_append {frac rest : List Char} (h : IsFraction frac) (hrest : EndsDigits rest)
    (hpoint : rest.head? ≠ some '.') : fraction (frac ++ rest) = frac := by
  rcases h with rfl | ⟨digits, hdigits, rfl⟩
  · cases rest with
    | nil => rfl
    | cons c rest =>
      rw [List.nil_append, fraction]
      rintro rest' heq
      cases heq
      exact hpoint rfl
  · exact marked_digits hdigits hrest

theorem fraction_ends {frac rest : List Char} (h : IsFraction frac) (hrest : EndsDigits rest) :
    EndsDigits (frac ++ rest) := by
  rcases h with rfl | ⟨digits, hdigits, rfl⟩
  · exact hrest
  · intro c hc
    cases hc
    decide

/-- The digits before the point start with a digit. -/
theorem IsIntegral.head {digits : List Char} (h : IsIntegral digits) :
    ∃ c rest, digits = c :: rest ∧ isDigit c = true := by
  rcases h with rfl | ⟨⟨hne, hdigits⟩, _⟩
  · exact ⟨'0', [], rfl, by decide⟩
  · cases digits with
    | nil => exact absurd rfl hne
    | cons c rest => exact ⟨c, rest, rfl, hdigits c List.mem_cons_self⟩

/-- The sign is what stands before the digits. -/
theorem sign_take {sign digits rest : List Char} (hsign : sign = [] ∨ sign = ['-'])
    (h : IsIntegral digits) :
    ((sign ++ digits ++ rest).takeWhile (· = '-')).take 1 = sign := by
  obtain ⟨c, tail, rfl, hc⟩ := h.head
  have hminus : c ≠ '-' := by
    rintro rfl
    exact absurd hc (by decide)
  rcases hsign with rfl | rfl
  · simp [hminus]
  · simp [hminus]

/-- A number, read up to where it stops. -/
theorem scanNumber_append {sign digits frac exp rest : List Char}
    (hsign : sign = [] ∨ sign = ['-']) (hdigits : IsIntegral digits) (hfrac : IsFraction frac)
    (hexp : IsExponent exp) (hrest : Stops rest) :
    scanNumber platform (sign ++ digits ++ frac ++ exp ++ rest) =
      if frac = [] && exp = [] then do
        guard (digits.length ≤ maxStrDigits)
        let n : ℤ := natOf digits
        pure (.int (if sign = [] then n else -n), (sign ++ digits ++ frac ++ exp).length)
      else
        some (.float (platform.toFloat (String.ofList (sign ++ digits ++ frac ++ exp))),
          (sign ++ digits ++ frac ++ exp).length) := by
  obtain ⟨hends, hpoint⟩ := exponent_ends hexp hrest
  have htext : sign ++ digits ++ frac ++ exp ++ rest = sign ++ digits ++ (frac ++ (exp ++ rest)) := by
    simp only [List.append_assoc]
  have hbody : (sign ++ digits ++ (frac ++ (exp ++ rest))).drop sign.length =
      digits ++ (frac ++ (exp ++ rest)) := by
    rw [List.append_assoc, List.drop_left]
  have hafter : (digits ++ (frac ++ (exp ++ rest))).drop digits.length =
      frac ++ (exp ++ rest) := List.drop_left
  have hlast : (digits ++ (frac ++ (exp ++ rest))).drop (digits.length + frac.length) =
      exp ++ rest := by
    rw [← List.drop_drop, List.drop_left, List.drop_left]
  unfold scanNumber
  rw [htext]
  simp only [sign_take hsign hdigits, hbody, integral_append hdigits (fraction_ends hfrac hends),
    hafter, fraction_append hfrac hends hpoint, hlast, exponent_append hexp hrest,
    Option.bind_eq_bind, Option.bind_some, Option.pure_def]

/-- Nothing but a number starts with a digit or a minus sign before one. -/
theorem scan_number {c : Char} {text : List Char}
    (h : isDigit c = true ∨ c = '-' ∧ ∃ d rest, text = d :: rest ∧ isDigit d = true) :
    scan platform c text =
      (scanNumber platform (c :: text)).map fun found => (.value found.1, found.2 - 1) := by
  have hinfinity : ¬ (c = '-' && "Infinity".toList.isPrefixOf text) = true := by
    rcases h with hc | ⟨_, d, rest, rfl, hd⟩
    · intro heq
      simp only [Bool.and_eq_true, decide_eq_true_eq] at heq
      rw [heq.1] at hc
      exact absurd hc (by decide)
    · intro heq
      simp only [Bool.and_eq_true] at heq
      have hprefix : ("Infinity".toList).isPrefixOf (d :: rest) = true := heq.2
      have hfirst : ('I' == d) = true := by
        have hlist : "Infinity".toList = 'I' :: "nfinity".toList := by decide
        rw [hlist, List.isPrefixOf_cons_cons, Bool.and_eq_true] at hprefix
        exact hprefix.1
      rw [← beq_iff_eq.1 hfirst] at hd
      exact absurd hd (by decide)
  have hchar : ∀ d, isDigit d = false → d ≠ '-' → c ≠ d := by
    intro d hd hminus heq
    rw [heq] at h
    rcases h with hc | ⟨hc, _⟩
    · rw [hd] at hc
      cases hc
    · exact hminus hc
  unfold scan
  split
  all_goals first
    | exact absurd rfl (hchar _ (by decide) (by decide))
    | (rw [if_neg hinfinity, Option.map_eq_bind]; rfl)

/-! ## The numbers of a canonical text -/

theorem isDigit_of_char {c : Char} (h : c.isDigit = true) : isDigit c = true := by
  simpa [Char.isDigit, isDigit, Char.le_def] using h

theorem toDigits_isDigits (n : Nat) : IsDigits (Nat.toDigits 10 n) := by
  refine ⟨Nat.toDigits_ne_nil, ?_⟩
  intro c hc
  exact isDigit_of_char (Nat.isDigit_of_mem_toDigits (by decide) (by decide) hc)

/-- The digits of a number but zero have no leading zero. -/
theorem head_toDigits {n : Nat} (h : 0 < n) : (Nat.toDigits 10 n).head? ≠ some '0' := by
  induction n using Nat.strongRecOn with
  | ind n ih =>
    by_cases hsmall : n < 10
    · rw [Nat.toDigits_of_lt_base hsmall]
      have hdigit : ∀ d < 10, 0 < d → [Nat.digitChar d].head? ≠ some '0' := by decide
      exact hdigit n hsmall h
    · have hlarge : 10 ≤ n := Nat.le_of_not_lt hsmall
      rw [Nat.toDigits_of_base_le (by decide) hlarge]
      have hhead := ih (n / 10) (by omega) (by omega)
      cases htail : Nat.toDigits 10 (n / 10) with
      | nil => exact absurd htail Nat.toDigits_ne_nil
      | cons c rest =>
        rw [htail] at hhead
        exact hhead

theorem toDigits_isIntegral (n : Nat) : IsIntegral (Nat.toDigits 10 n) := by
  rcases Nat.eq_zero_or_pos n with rfl | hpos
  · exact .inl (Nat.toDigits_zero 10)
  · exact .inr ⟨toDigits_isDigits n, head_toDigits hpos⟩

theorem natOf_toDigits (n : Nat) : natOf (Nat.toDigits 10 n) = n := by
  have hfold : natOf (Nat.toDigits 10 n) = Nat.ofDigitChars 10 (Nat.toDigits 10 n) 0 :=
    Nat.ofDigitChars_eq_foldl.symm
  rw [hfold, Nat.ofDigitChars_ten_toDigits]

/-- The minus sign of a negative integer. -/
def signOf (n : ℤ) : List Char := if 0 ≤ n then [] else ['-']

theorem toList_toString (n : ℤ) :
    (toString n).toList = signOf n ++ Nat.toDigits 10 n.natAbs := by
  rw [Int.toString_eq_repr, Int.repr_eq_if, signOf]
  by_cases h : 0 ≤ n
  · have habs : n.toNat = n.natAbs := by omega
    simp [h, habs]
  · have habs : (-n).toNat = n.natAbs := by omega
    simp [h, habs, String.toList_append]

/-- A lexeme that the scanner reads whole is one token. -/
theorem tokens_number {lexeme rest : List Char} {value : Json}
    (hhead : ∃ c text, lexeme = c :: text ∧
      (isDigit c = true ∨ c = '-' ∧ ∃ d tail, text = d :: tail ∧ isDigit d = true))
    (hscan : scanNumber platform (lexeme ++ rest) = some (value, lexeme.length)) :
    tokens platform 0 (lexeme ++ rest) = .value value :: tokens platform 0 rest := by
  obtain ⟨c, text, rfl, hc⟩ := hhead
  refine tokens_scan ?_ ?_
  · rcases hc with hc | ⟨rfl, _⟩
    · -- a digit is no white space
      rw [← Bool.not_eq_true]
      intro hspace
      simp only [isSpace, Bool.or_eq_true, decide_eq_true_eq] at hspace
      rcases hspace with ((rfl | rfl) | rfl) | rfl <;> exact absurd hc (by decide)
    · decide
  · have hc' : isDigit c = true ∨
        c = '-' ∧ ∃ d tail, text ++ rest = d :: tail ∧ isDigit d = true := by
      rcases hc with hc | ⟨hc, d, tail, rfl, hd⟩
      · exact .inl hc
      · exact .inr ⟨hc, d, tail ++ rest, rfl, hd⟩
    rw [scan_number hc', ← List.cons_append, hscan]
    rfl

/-- The head of a number: its first digit, or the sign before it. -/
theorem number_head {sign digits : List Char} (tail : List Char)
    (hsign : sign = [] ∨ sign = ['-']) (h : IsIntegral digits) :
    ∃ c text, sign ++ digits ++ tail = c :: text ∧
      (isDigit c = true ∨ c = '-' ∧ ∃ d rest, text = d :: rest ∧ isDigit d = true) := by
  obtain ⟨d, rest, rfl, hd⟩ := h.head
  rcases hsign with rfl | rfl
  · exact ⟨d, rest ++ tail, rfl, .inl hd⟩
  · exact ⟨'-', d :: rest ++ tail, rfl, .inr ⟨rfl, d, rest ++ tail, rfl, hd⟩⟩

/-- An integer is one token. -/
theorem tokens_int {n : ℤ} {rest : List Char}
    (hsize : (Nat.toDigits 10 n.natAbs).length ≤ maxStrDigits) (hrest : Stops rest) :
    tokens platform 0 ((toString n).toList ++ rest) =
      .value (.int n) :: tokens platform 0 rest := by
  have hsign : signOf n = [] ∨ signOf n = ['-'] := by
    unfold signOf
    split <;> simp
  have hdigits := toDigits_isIntegral n.natAbs
  rw [toList_toString]
  refine tokens_number ?_ ?_
  · have hhead := number_head [] hsign hdigits
    rw [List.append_nil] at hhead
    exact hhead
  · have hscan : scanNumber platform (signOf n ++ Nat.toDigits 10 n.natAbs ++ [] ++ [] ++ rest) = _ :=
      scanNumber_append hsign hdigits (.inl rfl) (.inl rfl) hrest
    simp only [List.append_nil] at hscan
    rw [hscan, natOf_toDigits]
    have hvalue : (if signOf n = [] then (n.natAbs : ℤ) else -(n.natAbs : ℤ)) = n := by
      unfold signOf
      by_cases h : 0 ≤ n
      · rw [if_pos h, if_pos rfl]
        omega
      · rw [if_neg h, if_neg (by simp)]
        omega
    rw [hvalue]
    simp [hsize, guard]

/-- A float text is one token. -/
theorem tokens_float {text rest : List Char} (h : IsFloatText text) (hrest : Stops rest) :
    tokens platform 0 (text ++ rest) =
      .value (.float (platform.toFloat (String.ofList text))) :: tokens platform 0 rest := by
  obtain ⟨sign, digits, frac, exp, rfl, hsign, hdigits, hfrac, hexp, hfloat⟩ := h
  refine tokens_number ?_ ?_
  · have hhead := number_head (frac ++ exp) hsign hdigits
    rw [← List.append_assoc] at hhead
    exact hhead
  · rw [scanNumber_append hsign hdigits hfrac hexp hrest, if_neg]
    intro hboth
    simp only [Bool.and_eq_true, decide_eq_true_eq] at hboth
    rcases hfloat with hne | hne
    · exact hne hboth.1
    · exact hne hboth.2

/-! ## Punctuation and constants -/

theorem tokens_char {c : Char} {token : Token} (hspace : isSpace c = false)
    (hscan : ∀ rest, scan platform c rest = some (token, 0)) (rest : List Char) :
    tokens platform 0 (c :: rest) = token :: tokens platform 0 rest := by
  show tokens platform 0 (c :: [] ++ rest) = token :: tokens platform 0 rest
  exact tokens_scan hspace (hscan rest)

/-- A constant is one token. -/
theorem tokens_literal {c : Char} {word : String} {text : List Char} {token : Token}
    (hspace : isSpace c = false) (hword : word.toList = text)
    (hscan : ∀ rest, scan platform c rest = literal word token rest) (rest : List Char) :
    tokens platform 0 (c :: text ++ rest) = token :: tokens platform 0 rest := by
  refine tokens_scan hspace ?_
  have hlength : word.length = text.length := by
    rw [← hword, String.length_toList]
  have hprefix : text.isPrefixOf (text ++ rest) = true := by
    rw [List.isPrefixOf_iff_prefix]
    exact List.prefix_append text rest
  rw [hscan, literal, hword, if_pos hprefix, hlength]

theorem tokens_null (rest : List Char) :
    tokens platform 0 ("null".toList ++ rest) = .value .null :: tokens platform 0 rest := by
  have hnull : "null".toList = 'n' :: ['u', 'l', 'l'] := by decide
  rw [hnull]
  have hword : "ull".toList = ['u', 'l', 'l'] := by decide
  exact tokens_literal (by decide) hword (fun _ => rfl) rest

theorem tokens_bool (b : Bool) (rest : List Char) :
    tokens platform 0 ((if b then "true" else "false").toList ++ rest) =
      .value (.bool b) :: tokens platform 0 rest := by
  cases b with
  | true =>
    have htrue : "true".toList = 't' :: ['r', 'u', 'e'] := by decide
    rw [if_pos rfl, htrue]
    have hword : "rue".toList = ['r', 'u', 'e'] := by decide
    exact tokens_literal (by decide) hword (fun _ => rfl) rest
  | false =>
    have hfalse : "false".toList = 'f' :: ['a', 'l', 's', 'e'] := by decide
    rw [if_neg (by decide), hfalse]
    have hword : "alse".toList = ['a', 'l', 's', 'e'] := by decide
    exact tokens_literal (by decide) hword (fun _ => rfl) rest

end Potocolom.Protocol
