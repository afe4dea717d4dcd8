import Mathlib.Data.List.TakeWhile
import MdxPages.Json.Reader
import MdxPages.Proofs.Results

/-!
# Proofs/Mdx/Expression — where an expression between braces ends

An expression ends at the brace that matches the one before it.  Braces in strings do not count, and
in a string a backslash takes the next character with it (`cutExpression?`).  Code in which each
string and each brace is closed is passed over as a whole (`Passes.exists_cutExpression?`), and **so
is every JSON text** (`passes_of_read`), whatever its strings hold.
-/

namespace MdxPages

namespace Mdx

open Json (prepend)

variable {cs ds rest : List Char} {q : Char}

/-! ## Reading

A reader of expressions counts braces and keeps out of strings.  It knows nothing else of the code.
-/

/-- Whether a character opens a string. -/
def isQuote (c : Char) : Bool :=
  c == '"' || c == '\'' || c == '`'

/-- A character of code that is neither a quote nor a brace. -/
def isPlainCode (c : Char) : Bool :=
  !isQuote c && c != '\x7b' && c != '\x7d'

/-- Where a reader of an expression is: in the code, in a string, or behind a backslash in one. -/
inductive Place
  | code
  | string (quote : Char)
  | escape (quote : Char)

/-- The characters of an expression up to the brace that closes it, and those behind that brace;
`depth` counts the braces that are open in it. -/
def cutExpression? (depth : Nat) (place : Place) : List Char → Option (List Char × List Char)
  | [] => none
  | c :: cs =>
    match place with
    | .escape q => prepend [c] (cutExpression? depth (.string q) cs)
    | .string q =>
      let next := if c = '\\' then .escape q else if c = q then .code else .string q
      prepend [c] (cutExpression? depth next cs)
    | .code =>
      if c = '\x7d' then
        if depth = 0 then some ([], cs) else prepend [c] (cutExpression? (depth - 1) .code cs)
      else if c = '\x7b' then prepend [c] (cutExpression? (depth + 1) .code cs)
      else prepend [c] (cutExpression? depth (if isQuote c then .string c else .code) cs)

/-! ## Code that is passed over

`Passes` gives the code between two ends of a text in pieces: plain characters, strings, and braces
around pieces. -/

/-- A string is closed by its quote, and `rest` stands behind it. -/
inductive ClosesString (q : Char) : List Char → List Char → Prop
  | close {rest : List Char} : ClosesString q (q :: rest) rest
  | char {c : Char} {cs rest : List Char} (hquote : c ≠ q) (hslash : c ≠ '\\')
      (h : ClosesString q cs rest) : ClosesString q (c :: cs) rest
  | escape {c : Char} {cs rest : List Char} (h : ClosesString q cs rest) :
      ClosesString q ('\\' :: c :: cs) rest

/-- Some code in which each string and each brace is closed stands before `rest`. -/
inductive Passes : List Char → List Char → Prop
  | refl {rest : List Char} : Passes rest rest
  | char {c : Char} {cs rest : List Char} (hc : isPlainCode c = true) (h : Passes cs rest) :
      Passes (c :: cs) rest
  | string {q : Char} {cs ds rest : List Char} (hq : isQuote q = true)
      (hstring : ClosesString q cs ds) (h : Passes ds rest) : Passes (q :: cs) rest
  | braces {cs ds rest : List Char} (hinside : Passes cs ('\x7d' :: ds)) (h : Passes ds rest) :
      Passes ('\x7b' :: cs) rest

/-- What stands behind a string does not matter to it. -/
theorem ClosesString.append (h : ClosesString q cs rest) (tail : List Char) :
    ClosesString q (cs ++ tail) (rest ++ tail) := by
  induction h with
  | close => exact .close
  | char hquote hslash _ ih => exact .char hquote hslash ih
  | escape _ ih => exact .escape ih

/-- Characters put in front one after the other. -/
theorem prepend_prepend (cs ds : List Char) (result : Option (List Char × List Char)) :
    prepend cs (prepend ds result) = prepend (cs ++ ds) result := by
  cases result with
  | none => rfl
  | some result => simp [prepend]

/-- A string is passed over up to its quote, whatever braces are in it. -/
theorem ClosesString.exists_cutExpression? (h : ClosesString q cs rest) (hq : q ≠ '\\') :
    ∃ code, cs = code ++ rest ∧ ∀ depth,
      cutExpression? depth (.string q) cs = prepend code (cutExpression? depth .code rest) := by
  induction h with
  | @close rest =>
    refine ⟨[q], rfl, fun depth => ?_⟩
    rw [cutExpression?, if_neg hq, if_pos rfl]
  | @char c cs rest hquote hslash _ ih =>
    obtain ⟨code, rfl, hcut⟩ := ih
    refine ⟨c :: code, rfl, fun depth => ?_⟩
    rw [cutExpression?, if_neg hslash, if_neg hquote, hcut, prepend_prepend]
    rfl
  | @escape c cs rest _ ih =>
    obtain ⟨code, rfl, hcut⟩ := ih
    refine ⟨'\\' :: c :: code, rfl, fun depth => ?_⟩
    rw [cutExpression?, if_pos rfl, cutExpression?, hcut, prepend_prepend,
      prepend_prepend]
    rfl

namespace Passes

/-- Code after code that is passed over is passed over. -/
theorem trans (h : Passes cs ds) (h' : Passes ds rest) : Passes cs rest := by
  induction h with
  | refl => exact h'
  | char hc _ ih => exact .char hc (ih h')
  | string hq hstring _ ih => exact .string hq hstring (ih h')
  | braces hinside _ _ ih => exact .braces hinside (ih h')

/-- What stands behind some code does not matter to it. -/
theorem append (h : Passes cs rest) (tail : List Char) : Passes (cs ++ tail) (rest ++ tail) := by
  induction h with
  | refl => exact .refl
  | char hc _ ih => exact .char hc ih
  | string hq hstring _ ih => exact .string hq (hstring.append tail) ih
  | braces _ _ ihinside ih => exact .braces ihinside ih

/-- Plain code is passed over. -/
theorem of_forall (h : ∀ c ∈ cs, isPlainCode c = true) (rest : List Char) :
    Passes (cs ++ rest) rest := by
  induction cs with
  | nil => exact .refl
  | cons c cs ih =>
    rw [List.forall_mem_cons] at h
    exact .char h.1 (ih h.2)

/-- So is what a reader of JSON takes character by character. -/
theorem of_dropWhile {p : Char → Bool} (h : ∀ c, p c = true → isPlainCode c = true)
    (cs : List Char) : Passes cs (cs.dropWhile p) := by
  have htaken : ∀ c ∈ cs.takeWhile p, isPlainCode c = true :=
    fun c hc => h c (List.mem_takeWhile_imp hc)
  have hcs := of_forall htaken (cs.dropWhile p)
  rwa [List.takeWhile_append_dropWhile] at hcs

/-- **Code in which all is closed is passed over**, however many braces are open before it. -/
theorem exists_cutExpression? (h : Passes cs rest) :
    ∃ code, cs = code ++ rest ∧ ∀ depth,
      cutExpression? depth .code cs = prepend code (cutExpression? depth .code rest) := by
  induction h with
  | @refl rest =>
    refine ⟨[], rfl, fun depth => ?_⟩
    cases cutExpression? depth .code rest <;> rfl
  | @char c cs rest hc _ ih =>
    obtain ⟨code, rfl, hcut⟩ := ih
    simp only [isPlainCode, Bool.and_eq_true, Bool.not_eq_true', bne_iff_ne] at hc
    refine ⟨c :: code, rfl, fun depth => ?_⟩
    rw [cutExpression?, if_neg hc.2, if_neg hc.1.2, hc.1.1, if_neg Bool.false_ne_true, hcut,
      prepend_prepend]
    rfl
  | @string q cs ds rest hq hstring _ ih =>
    have hne : q ≠ '\\' ∧ q ≠ '\x7b' ∧ q ≠ '\x7d' := by
      refine ⟨?_, ?_, ?_⟩ <;> rintro rfl <;> cases hq
    obtain ⟨inside, rfl, hinside⟩ := hstring.exists_cutExpression? hne.1
    obtain ⟨code, rfl, hcut⟩ := ih
    refine ⟨q :: (inside ++ code), by simp, fun depth => ?_⟩
    rw [cutExpression?, if_neg hne.2.2, if_neg hne.2.1, if_pos hq, hinside, hcut,
      prepend_prepend, prepend_prepend]
    rfl
  | @braces cs ds rest _ _ ihinside ih =>
    obtain ⟨inside, rfl, hinside⟩ := ihinside
    obtain ⟨code, rfl, hcut⟩ := ih
    have hopen (depth : Nat) (tail : List Char) : cutExpression? depth .code ('\x7b' :: tail) =
        prepend ['\x7b'] (cutExpression? (depth + 1) .code tail) := rfl
    have hclose (depth : Nat) (tail : List Char) :
        cutExpression? (depth + 1) .code ('\x7d' :: tail) =
          prepend ['\x7d'] (cutExpression? depth .code tail) := rfl
    refine ⟨'\x7b' :: (inside ++ '\x7d' :: code), by simp, fun depth => ?_⟩
    rw [hopen, hinside, hclose, hcut, prepend_prepend, prepend_prepend, prepend_prepend]
    simp

end Passes

/-- An expression is cut off at its closing brace. -/
theorem cutExpression?_append (h : Passes cs []) (rest : List Char) :
    cutExpression? 0 .code (cs ++ '\x7d' :: rest) = some (cs, rest) := by
  obtain ⟨code, hcode, hcut⟩ := (h.append ('\x7d' :: rest)).exists_cutExpression?
  obtain rfl := List.append_cancel_right hcode
  rw [hcut]
  exact congrArg (fun code => some (code, rest)) (List.append_nil cs)

end Mdx

/-! ## JSON texts

The reader of JSON takes a text in pieces as well.  Each of its functions takes code that is passed
over. -/

namespace Json

open Mdx

variable {cs rest : List Char} {s : List Char} {v : Value} {vs : List Value}

/-- A blank is plain code. -/
theorem isPlainCode_of_isBlank (c : Char) (h : isBlank c = true) : isPlainCode c = true := by
  simp only [isBlank, Bool.or_eq_true, beq_iff_eq] at h
  obtain ((rfl | rfl) | rfl) | rfl := h <;> rfl

/-- So is a digit. -/
theorem isPlainCode_of_isDigit (c : Char) (h : c.isDigit = true) : isPlainCode c = true := by
  rw [← Bool.not_eq_false]
  intro hc
  simp only [isPlainCode, isQuote, Bool.and_eq_false_iff, Bool.not_eq_false', Bool.or_eq_true,
    beq_iff_eq, bne_eq_false_iff_eq] at hc
  obtain (((rfl | rfl) | rfl) | rfl) | rfl := hc <;> cases h

theorem passes_skipBlanks (h : skipBlanks cs = rest) : Passes cs rest :=
  h ▸ .of_dropWhile isPlainCode_of_isBlank cs

/-! ### Strings -/

/-- A hexadecimal digit neither closes a string nor escapes. -/
theorem ne_of_hexValue? {c : Char} {n : Nat} (h : Text.hexValue? c = some n) :
    c ≠ '"' ∧ c ≠ '\\' := by
  constructor <;> rintro rfl <;> cases h

/-- Four digits behind an escape close no string. -/
theorem closesString_of_unit? {a b c d : Char} {n : Nat} (h : unit? a b c d = some n)
    (hrest : ClosesString '"' cs rest) :
    ClosesString '"' ('\\' :: 'u' :: a :: b :: c :: d :: cs) rest := by
  simp only [unit?, Option.bind_eq_bind, Option.bind_eq_some_iff] at h
  obtain ⟨_, ha, _, hb, _, hc, _, hd, -⟩ := h
  have hchar {x : Char} {m : Nat} {cs : List Char} (hx : Text.hexValue? x = some m)
      (hcs : ClosesString '"' cs rest) : ClosesString '"' (x :: cs) rest :=
    .char (ne_of_hexValue? hx).1 (ne_of_hexValue? hx).2 hcs
  exact .escape (hchar ha (hchar hb (hchar hc (hchar hd hrest))))

theorem exists_of_prepend {result : Option (List Char × List Char)}
    (h : prepend cs result = some (s, rest)) : ∃ read, result = some (read, rest) := by
  cases result with
  | none => cases h
  | some result =>
    obtain ⟨-, rfl⟩ := Prod.mk.inj (Option.some.inj h)
    exact ⟨_, rfl⟩

/-- What is read as a string is closed by its quote. -/
theorem closesString_of_readString {half : Option Nat} (h : readString half cs = some (s, rest)) :
    ClosesString '"' cs rest := by
  fun_induction readString half cs generalizing s with
  | case1 | case3 | case8 | case10 => cases h
  | case2 half rest =>
    obtain ⟨-, rfl⟩ := Prod.mk.inj (Option.some.inj h)
    exact .close
  | case4 _ _ _ _ _ _ _ hunit _ ih | case5 _ _ _ _ _ _ hunit _ _ _ ih
  | case6 _ _ _ _ _ _ hunit _ _ _ ih | case7 _ _ _ _ _ _ hunit _ ih =>
    obtain ⟨read, hread⟩ := exists_of_prepend h
    exact closesString_of_unit? hunit (ih hread)
  | case9 _ _ _ _ _ _ ih =>
    obtain ⟨read, hread⟩ := exists_of_prepend h
    exact .escape (ih hread)
  | case11 _ c cs hquote _ hslash _ ih =>
    obtain ⟨read, hread⟩ := exists_of_prepend h
    have hc : c ≠ '\\' := by
      rintro rfl
      cases cs with
      | nil => cases hread
      | cons d cs => exact hslash d cs rfl rfl
    exact .char hquote hc (ih hread)

/-! ### Numbers and words -/

/-- Digits are passed over. -/
theorem passes_takeDigits {ds : List Nat} (h : takeDigits cs = (ds, rest)) : Passes cs rest := by
  obtain ⟨-, rfl⟩ := Prod.mk.inj h
  exact .of_dropWhile isPlainCode_of_isDigit cs

theorem passes_takeSign {negative : Bool} (h : Number.takeSign cs = (negative, rest)) :
    Passes cs rest := by
  revert h
  fun_cases Number.takeSign cs with
  | case1 | case2 =>
    rintro ⟨⟩
    exact .char rfl .refl
  | case3 =>
    rintro ⟨⟩
    exact .refl

/-- So is a fraction. -/
theorem passes_readFraction {fraction : Option (List Nat)}
    (h : readFraction cs = (fraction, rest)) : Passes cs rest := by
  revert h
  fun_cases readFraction cs with
  | case1 | case3 =>
    rintro ⟨⟩
    exact .refl
  | case2 tail ds digits _ hdigits =>
    rintro ⟨⟩
    exact .char rfl (passes_takeDigits hdigits)

theorem passes_readExponent {exponent : Option Int}
    (h : readExponent cs = (exponent, rest)) : Passes cs rest := by
  revert h
  fun_cases readExponent cs with
  | case1 | case3 | case4 =>
    rintro ⟨⟩
    exact .refl
  | case2 c tail hc negative digits hsign ds after _ hdigits =>
    rintro ⟨⟩
    have hplain : isPlainCode c = true := by
      obtain rfl | rfl := hc <;> rfl
    exact .char hplain ((passes_takeSign hsign).trans (passes_takeDigits hdigits))

/-- **A number is passed over.** -/
theorem passes_readNumber {negative : Bool} {n : Number}
    (h : readNumber negative cs = .ok (n, rest)) : Passes cs rest := by
  revert h
  fun_cases readNumber negative cs with
  | case1 | case2 => nofun
  | case3 _ whole hdigits _ _ fraction hfraction _ tail hexponent
  | case4 _ whole hdigits _ _ fraction hfraction _ tail hexponent =>
    rintro ⟨⟩
    have hwhole : Passes cs whole := by
      split at hdigits
      · obtain ⟨-, rfl⟩ := Prod.mk.inj hdigits
        exact .char rfl .refl
      · exact passes_takeDigits hdigits
    exact hwhole.trans ((passes_readFraction hfraction).trans (passes_readExponent hexponent))

theorem passes_afterWord? {word : String} {w : Value}
    (hword : word.toList.all isPlainCode = true)
    (h : (afterWord? word cs).map (w, ·) = some (v, rest)) : Passes cs rest := by
  unfold afterWord? at h
  split at h
  · next hprefix =>
    obtain ⟨tail, rfl⟩ := List.isPrefixOf_iff_prefix.1 hprefix
    rw [← String.length_toList, List.drop_left] at h
    obtain ⟨-, rfl⟩ := Prod.mk.inj (Option.some.inj h)
    exact .of_forall (List.all_eq_true.1 hword) _
  · cases h

/-- So is a word. -/
theorem passes_readWord? (h : readWord? cs = some (v, rest)) : Passes cs rest := by
  simp only [readWord?, Option.orElse_eq_orElse, Option.orElse_eq_or,
    Option.or_eq_some_iff] at h
  obtain h | ⟨-, h | ⟨-, h | ⟨-, h | ⟨-, h | ⟨-, h⟩⟩⟩⟩⟩ := h <;>
    exact passes_afterWord? rfl h

/-- And with them every scalar but a string. -/
theorem passes_readScalar (h : readScalar cs = .ok (v, rest)) : Passes cs rest := by
  revert h
  fun_cases readScalar cs with
  | case1 result hword =>
    intro h
    obtain rfl := Except.ok.inj h
    exact passes_readWord? hword
  | case2 _ number =>
    intro h
    obtain ⟨⟨n, tail⟩, hnumber, heq⟩ := exists_of_map h
    obtain ⟨-, rfl⟩ := Prod.mk.inj heq
    simp only [number] at hnumber
    split at hnumber
    · exact .char rfl (passes_readNumber hnumber)
    · exact passes_readNumber hnumber

/-! ### Values -/

-- By induction on the fuel.  What is read of an object stops before its closing brace, so that the
-- brace before it and this one close each other.

mutual

/-- **A value is passed over**, by induction on the fuel of its reader. -/
theorem passes_readValue (fuel : Nat) {cs rest : List Char} {v : Value}
    (h : readValue fuel cs = .ok (v, rest)) : Passes cs rest := by
  match fuel with
  | 0 => cases h
  | fuel + 1 =>
    rw [readValue.eq_def] at h
    simp only at h
    split at h
    · split at h
      · next hstring =>
        obtain ⟨-, rfl⟩ := Prod.mk.inj (Except.ok.inj h)
        exact .string rfl (closesString_of_readString hstring) .refl
      · cases h
    · split at h
      · next hblanks =>
        obtain ⟨-, rfl⟩ := Prod.mk.inj (Except.ok.inj h)
        exact .char rfl ((passes_skipBlanks hblanks).trans (.char rfl .refl))
      · obtain ⟨⟨items, tail⟩, hitems, heq⟩ := exists_of_map h
        obtain ⟨-, rfl⟩ := Prod.mk.inj heq
        exact .char rfl ((passes_skipBlanks rfl).trans (passes_readItems fuel hitems))
    · split at h
      · next hblanks =>
        obtain ⟨-, rfl⟩ := Prod.mk.inj (Except.ok.inj h)
        exact .braces (passes_skipBlanks hblanks) .refl
      · obtain ⟨⟨fields, tail⟩, hfields, heq⟩ := exists_of_map h
        obtain ⟨-, rfl⟩ := Prod.mk.inj heq
        exact .braces ((passes_skipBlanks rfl).trans (passes_readFields fuel hfields)) .refl
    · exact passes_readScalar h

/-- Items are passed over up to the closing bracket. -/
theorem passes_readItems (fuel : Nat) {cs rest : List Char} {vs : List Value}
    (h : readItems fuel cs = .ok (vs, rest)) : Passes cs rest := by
  match fuel with
  | 0 => cases h
  | fuel + 1 =>
    rw [readItems] at h
    split at h
    · cases h
    · next v tail hvalue =>
      have hvalue := passes_readValue fuel hvalue
      split at h
      · next hblanks =>
        obtain ⟨-, rfl⟩ := Prod.mk.inj (Except.ok.inj h)
        exact hvalue.trans ((passes_skipBlanks hblanks).trans (.char rfl .refl))
      · next tail hblanks =>
        obtain ⟨⟨items, tail'⟩, hitems, heq⟩ := exists_of_map h
        obtain ⟨-, rfl⟩ := Prod.mk.inj heq
        have hitems := (passes_skipBlanks rfl).trans (passes_readItems fuel hitems)
        exact hvalue.trans ((passes_skipBlanks hblanks).trans (.char rfl hitems))
      · cases h

/-- Fields are passed over up to the closing brace. -/
theorem passes_readFields (fuel : Nat) {cs rest : List Char} {fields : List (String × Value)}
    (h : readFields fuel cs = .ok (fields, rest)) : Passes cs ('\x7d' :: rest) := by
  match fuel with
  | 0 => cases h
  | fuel + 1 =>
    rw [readFields.eq_def] at h
    simp only at h
    split at h
    · split at h
      · cases h
      · next hkey =>
        have hkey := closesString_of_readString hkey
        split at h
        · next hcolon =>
          have hcolon := passes_skipBlanks hcolon
          split at h
          · cases h
          · next hvalue =>
            have hvalue := (passes_skipBlanks rfl).trans (passes_readValue fuel hvalue)
            split at h
            · next hblanks =>
              obtain ⟨-, rfl⟩ := Prod.mk.inj (Except.ok.inj h)
              exact .string rfl hkey
                (hcolon.trans (.char rfl (hvalue.trans (passes_skipBlanks hblanks))))
            · next tail hblanks =>
              obtain ⟨⟨fields', tail'⟩, hfields, heq⟩ := exists_of_map h
              obtain ⟨-, rfl⟩ := Prod.mk.inj heq
              have hfields := (passes_skipBlanks rfl).trans (passes_readFields fuel hfields)
              exact .string rfl hkey (hcolon.trans (.char rfl (hvalue.trans
                ((passes_skipBlanks hblanks).trans (.char rfl hfields)))))
            · cases h
        · cases h
    · cases h

end

/-- **A JSON text is passed over as a whole.** -/
theorem passes_of_read {source : String} (h : read source = .ok v) : Passes source.toList [] := by
  unfold read at h
  simp only at h
  split at h
  · next hvalue =>
    split at h
    · next hblanks =>
      have hvalue := (passes_skipBlanks rfl).trans (passes_readValue _ hvalue)
      exact hvalue.trans (passes_skipBlanks (List.isEmpty_iff.1 hblanks))
    · cases h
  · cases h

end Json

end MdxPages
