import Mathlib.Tactic.IntervalCases
import SessionAttributes.Dict
import SessionAttributes.Json.Printer
import SessionAttributes.Json.Token

namespace SessionAttributes

namespace Bytes

theorem ofString_append (s t : String) : ofString (s ++ t) = ofString s ++ ofString t := by
  rw [ofString, String.toByteArray_append, ByteArray.toList_data_append]
  rfl

/-- The character of a decimal digit is one byte. -/
theorem ofString_digit {d : Nat} (h : d < 10) :
    ofString (String.singleton d.digitChar) = [UInt8.ofNat (0x30 + d)] := by
  have hall : ∀ d : Fin 10, ofString (String.singleton d.val.digitChar) =
      [UInt8.ofNat (0x30 + d.val)] := by decide
  exact hall ⟨d, h⟩

/-- A control character is one byte. -/
theorem ofString_control {n : Nat} (h : n < 0x20) :
    ofString (Char.ofNat n).toString = [UInt8.ofNat n] := by
  have hall : ∀ n : Fin 0x20, ofString (Char.ofNat n.val).toString = [UInt8.ofNat n.val] := by
    decide
  exact hall ⟨n, h⟩

end Bytes

namespace Json

mutual

/-- The numbers of a value are whole, and its objects list their members in key order, each key
once. -/
def Canonical : Json → Prop
  | .number (.real _) => False
  | .array xs => CanonicalItems xs
  | .object ms => Ordered ms ∧ CanonicalMembers ms
  | .null | .bool _ | .number _ | .string _ => True

def CanonicalItems : List Json → Prop
  | [] => True
  | x :: xs => Canonical x ∧ CanonicalItems xs

def CanonicalMembers : List (String × Json) → Prop
  | [] => True
  | (_, x) :: ms => Canonical x ∧ CanonicalMembers ms

end

mutual

def spell : Json → List Token
  | .null => [.null]
  | .bool b => [.bool b]
  | .number n => [.number n]
  | .string s => [.text s]
  | .array xs => .openArray :: spellItems xs
  | .object ms => .openObject :: spellMembers ms

def spellItems : List Json → List Token
  | [] => [.closeArray]
  | x :: xs => spell x ++ spellMoreItems xs

def spellMoreItems : List Json → List Token
  | [] => [.closeArray]
  | x :: xs => .comma :: spell x ++ spellMoreItems xs

def spellMembers : List (String × Json) → List Token
  | [] => [.closeObject]
  | (k, x) :: ms => .text k :: .colon :: spell x ++ spellMoreMembers ms

def spellMoreMembers : List (String × Json) → List Token
  | [] => [.closeObject]
  | (k, x) :: ms => .comma :: .text k :: .colon :: spell x ++ spellMoreMembers ms

end

namespace Scan

variable {scan next : Scan} {b : UInt8} {token : Token}

theorem tokens_proceed (h : scan.step b = proceed next) (rest : Bytes) :
    scan.tokens (b :: rest) = next.tokens rest := by
  simp [tokens, h, proceed]

theorem tokens_emit (h : scan.step b = emit token) (rest : Bytes) :
    scan.tokens (b :: rest) = token :: between.tokens rest := by
  simp [tokens, h, emit]

section Numbers

/-- The text breaks off, or goes on with a comma or a closing bracket or brace. -/
def Ends : Bytes → Prop
  | [] => True
  | b :: _ => b = 0x2C ∨ b = 0x5D ∨ b = 0x7D

/-- A whole number is complete where the text ends it. -/
theorem tokens_complete {n : NumberScan} {value : Number}
    (hfinish : ∀ fault, n.finish fault = .ok value)
    (hstop : ∀ b, b = 0x2C ∨ b = 0x5D ∨ b = 0x7D → n.advance b = none) {rest : Bytes}
    (hr : Ends rest) : (number n).tokens rest = .number value :: between.tokens rest := by
  cases rest with
  | nil => simp [tokens, finish, numberToken, hfinish]
  | cons b rest =>
    have hstep : (number n).step b = (.number value :: (start b).1, (start b).2) := by
      simp [step, hstop b hr, hfinish]
    have hbetween : between.step b = start b := rfl
    simp only [tokens, hstep, hbetween]
    generalize start b = r
    obtain ⟨ready, next⟩ := r
    cases next <;> rfl

theorem digit?_ofNat {d : Nat} (h : d < 10) : digit? (UInt8.ofNat (0x30 + d)) = some d := by
  have hall : ∀ d : Fin 10, digit? (UInt8.ofNat (0x30 + d.val)) = some d.val := by decide
  exact hall ⟨d, h⟩

theorem advance_whole (negative : Bool) {n d : Nat} {b : UInt8} (hb : digit? b = some d)
    (hn : n * 10 + d ≤ Draft.limit) :
    (NumberScan.whole negative n).advance b = some (.ok (.whole negative (n * 10 + d))) := by
  have hkeeps : (⟨negative, n, 0⟩ : Draft).keeps d = true := decide_eq_true hn
  simp only [NumberScan.advance, hb, hkeeps, if_true]

/-- The digits of a whole number that is not zero. The first one is taken where the number
starts. -/
theorem tokens_digits {first : Scan} {negative : Bool}
    (hfirst : ∀ d, 0 < d → d < 10 →
      first.step (UInt8.ofNat (0x30 + d)) = proceed (.number (.whole negative d)))
    (n : Nat) (hpos : 0 < n) (hn : n ≤ Draft.limit) (rest : Bytes) :
    first.tokens (Bytes.ofString n.repr ++ rest) =
      (number (.whole negative n)).tokens rest := by
  induction n using Nat.strongRecOn generalizing rest with
  | ind n ih =>
    by_cases hlt : n < 10
    · rw [Nat.repr_of_lt hlt, Bytes.ofString_digit hlt]
      exact tokens_proceed (hfirst n hpos hlt) rest
    · have hge : 10 ≤ n := Nat.not_lt.mp hlt
      have hdigit : n % 10 < 10 := Nat.mod_lt n (by decide)
      -- The text of n is the text of n / 10 and one more digit.
      rw [Nat.repr_of_ge hge, Bytes.ofString_append, Bytes.ofString_digit hdigit, List.append_assoc,
        ih (n / 10) (by omega) (by omega) (by omega)]
      have hwhole : n / 10 * 10 + n % 10 = n := by omega
      have hnext := advance_whole negative (digit?_ofNat hdigit) (hwhole.trans_le hn)
      rw [hwhole] at hnext
      have hstep : (number (.whole negative (n / 10))).step (UInt8.ofNat (0x30 + n % 10)) =
          proceed (.number (.whole negative n)) := by
        simp only [step, hnext]
      exact tokens_proceed hstep rest

theorem start_digit (d : Nat) (hpos : 0 < d) (hd : d < 10) :
    between.step (UInt8.ofNat (0x30 + d)) = proceed (.number (.whole false d)) := by
  interval_cases d <;> rfl

theorem sign_digit (d : Nat) (hpos : 0 < d) (hd : d < 10) :
    (number .sign).step (UInt8.ofNat (0x30 + d)) = proceed (.number (.whole true d)) := by
  interval_cases d <;> rfl

theorem stop_whole (negative : Bool) (n : Nat) (b : UInt8) (hb : b = 0x2C ∨ b = 0x5D ∨ b = 0x7D) :
    (NumberScan.whole negative n).advance b = none := by
  rcases hb with rfl | rfl | rfl <;> rfl

theorem stop_zero (negative : Bool) (b : UInt8) (hb : b = 0x2C ∨ b = 0x5D ∨ b = 0x7D) :
    (NumberScan.zero negative).advance b = none := by
  rcases hb with rfl | rfl | rfl <;> rfl

theorem tokens_number {n : Number} (h : (Json.number n).Canonical) {rest : Bytes}
    (hr : Ends rest) :
    between.tokens (Bytes.ofString n.text ++ rest) = .number n :: between.tokens rest := by
  cases n with
  | real x => exact h.elim
  | natural n =>
    change between.tokens (Bytes.ofString n.val.repr ++ rest) = _
    by_cases hz : n.val = 0
    · have hstep : between.step 0x30 = proceed (.number (.zero false)) := rfl
      have hvalue : Number.natural n = .ofWhole false 0 := congrArg Number.natural (Fin.ext hz)
      rw [hz]
      change between.tokens (0x30 :: rest) = _
      rw [tokens_proceed hstep, hvalue]
      exact tokens_complete (fun _ => rfl) (stop_zero false) hr
    · have hlimit : n.val ≤ Draft.limit := Nat.le_of_lt_succ n.isLt
      have hvalue : Number.natural n = .ofWhole false n.val := by
        simp [Number.ofWhole, Number.ofNat, Fin.ofNat, Nat.mod_eq_of_lt n.isLt]
      rw [tokens_digits start_digit n.val (Nat.pos_of_ne_zero hz) hlimit, hvalue]
      exact tokens_complete (fun _ => rfl) (stop_whole false n.val) hr
  | negative n =>
    have hlt := n.isLt
    have hlimit : n.val + 1 ≤ Draft.limit := by
      unfold Draft.limit
      omega
    have hvalue : Number.negative n = .ofWhole true (n.val + 1) := by
      have hfits : ¬ (n.val + 1 = 0 ∨ 0x8000000000000000 < n.val + 1) := by omega
      simp only [Number.ofWhole, if_true, if_neg hfits]
      simp [Number.negSucc, Fin.ofNat, Nat.mod_eq_of_lt hlt]
    have hstep : between.step 0x2D = proceed (.number .sign) := rfl
    change between.tokens (Bytes.ofString ("-" ++ (n.val + 1).repr) ++ rest) = _
    rw [Bytes.ofString_append, List.append_assoc]
    change between.tokens (0x2D :: (Bytes.ofString (n.val + 1).repr ++ rest)) = _
    rw [tokens_proceed hstep, tokens_digits sign_digit _ (Nat.succ_pos _) hlimit, hvalue]
    exact tokens_complete (fun _ => rfl) (stop_whole true (n.val + 1)) hr

end Numbers

section Texts
variable {done : Bytes}

theorem shortEscape_escaped {b mark : UInt8} (h : shortEscape b = some mark) :
    mark ≠ 0x75 ∧ escaped? mark = some b := by
  unfold shortEscape at h
  repeat' split at h
  all_goals cases h
  all_goals subst b; decide

theorem hexDigit?_hexDigit {k : Nat} (h : k < 16) : hexDigit? (hexDigit k) = some k := by
  have hall : ∀ k : Fin 16, hexDigit? (hexDigit k.val) = some k.val := by decide
  exact hall ⟨k, h⟩

theorem addHex_hexDigit (v : Nat) {k : Nat} (h : k < 16) :
    addHex (some v) (hexDigit k) = some (16 * v + k) := by
  simp [addHex, hexDigit?_hexDigit h]

theorem closeUnit_control (done : Bytes) {n : Nat} (h : n < 0x20) :
    closeUnit done none n = proceed (.string (UInt8.ofNat n :: done)) := by
  have htrailing : isTrailing n = false := by
    simp only [isTrailing, Bool.and_eq_false_iff, decide_eq_false_iff_not]
    omega
  have hleading : isLeading n = false := by
    simp only [isLeading, Bool.and_eq_false_iff, decide_eq_false_iff_not]
    omega
  simp only [closeUnit, htrailing, hleading, push, Bytes.ofString_control h, Bool.false_eq_true,
    if_false]
  rfl

/-- A control byte without a mark of its own is read back from its number. -/
theorem tokens_numbered (done : Bytes) {b : UInt8} (hb : b < 0x20) (rest : Bytes) :
    (escape done).tokens
      (0x75 :: 0x30 :: 0x30 :: hexDigit (b.toNat / 16) :: hexDigit (b.toNat % 16) :: rest) =
        (string (b :: done)).tokens rest := by
  have hlt : b.toNat < 0x20 := hb
  have hzero : addHex (some 0) 0x30 = some 0 := rfl
  have hhigh : addHex (some 0) (hexDigit (b.toNat / 16)) = some (b.toNat / 16) := by
    rw [addHex_hexDigit 0 (by omega), Nat.mul_zero, Nat.zero_add]
  have hlow : addHex (some (b.toNat / 16)) (hexDigit (b.toNat % 16)) = some b.toNat := by
    rw [addHex_hexDigit _ (by omega), Nat.div_add_mod]
  have hclose : (codeUnit done none 3 (some (b.toNat / 16))).step (hexDigit (b.toNat % 16)) =
      proceed (.string (b :: done)) := by
    simp only [step, hlow]
    rw [if_neg (by decide), closeUnit_control done hlt, UInt8.ofNat_toNat]
  calc (escape done).tokens _
    _ = (codeUnit done none 0 (some 0)).tokens _ := tokens_proceed rfl _
    _ = (codeUnit done none 1 (some 0)).tokens _ := tokens_proceed rfl _
    _ = (codeUnit done none 2 (some 0)).tokens _ := tokens_proceed rfl _
    _ = (codeUnit done none 3 (some (b.toNat / 16))).tokens _ :=
      tokens_proceed (by simp only [step, hhigh]; rfl) _
    _ = (string (b :: done)).tokens rest := tokens_proceed hclose rest

/-- Each byte of a string is read back from the way it is written. -/
theorem tokens_escapeByte (done : Bytes) (b : UInt8) (rest : Bytes) :
    (string done).tokens (escapeByte b ++ rest) = (string (b :: done)).tokens rest := by
  unfold escapeByte
  have hmark : (string done).step 0x5C = proceed (.escape done) := rfl
  cases hs : shortEscape b with
  | some mark =>
    obtain ⟨hu, he⟩ := shortEscape_escaped hs
    have hescape : (escape done).step mark = proceed (.string (b :: done)) := by
      simp only [step, if_neg hu, he]
    exact (tokens_proceed hmark _).trans (tokens_proceed hescape rest)
  | none =>
    dsimp only
    split
    · rename_i hb
      exact (tokens_proceed hmark _).trans (tokens_numbered done hb rest)
    · rename_i hb
      have hquote : b ≠ 0x22 := by
        rintro rfl
        exact absurd hs (by decide)
      have hslash : b ≠ 0x5C := by
        rintro rfl
        exact absurd hs (by decide)
      have hstep : (string done).step b = proceed (.string (b :: done)) := by
        simp only [step, if_neg hquote, if_neg hslash, if_neg hb]
      exact tokens_proceed hstep rest

theorem tokens_escaped (bytes done rest : Bytes) :
    (string done).tokens (bytes.flatMap escapeByte ++ rest) =
      (string (bytes.reverse ++ done)).tokens rest := by
  induction bytes generalizing done with
  | nil => rfl
  | cons b bytes ih =>
    rw [List.flatMap_cons, List.append_assoc, tokens_escapeByte, ih, List.reverse_cons,
      List.append_assoc]
    rfl

theorem tokens_writeString (s : String) (rest : Bytes) :
    between.tokens (writeString s ++ rest) = .text s :: between.tokens rest := by
  have hopen : between.step 0x22 = proceed (.string []) := rfl
  have hclose : (string (Bytes.ofString s).reverse).step 0x22 = emit (.text s) := by
    change closeString (Bytes.ofString s).reverse = _
    rw [closeString, List.reverse_reverse, Bytes.toText?_ofString]
  unfold writeString
  rw [List.append_assoc, List.cons_append, tokens_proceed hopen, tokens_escaped, List.append_nil]
  exact tokens_emit hclose rest

end Texts

end Scan

/-- What follows an item ends it. -/
theorem ends_moreItems (xs : List Json) (rest : Bytes) : Scan.Ends (writeMoreItems xs ++ rest) := by
  cases xs with
  | nil => exact .inr (.inl rfl)
  | cons x xs => exact .inl rfl

theorem ends_moreMembers (ms : List (String × Json)) (rest : Bytes) :
    Scan.Ends (writeMoreMembers ms ++ rest) := by
  cases ms with
  | nil => exact .inr (.inr rfl)
  | cons e ms => exact .inl rfl

mutual

/-- A written value is scanned as its tokens. -/
theorem tokens_write : ∀ (v : Json), v.Canonical → ∀ rest, Scan.Ends rest →
    Scan.between.tokens (write v ++ rest) = spell v ++ Scan.between.tokens rest
  | .null, _, _, _ => rfl
  | .bool true, _, _, _ => rfl
  | .bool false, _, _, _ => rfl
  | .number _, h, _, hr => Scan.tokens_number h hr
  | .string s, _, rest, _ => Scan.tokens_writeString s rest
  | .array xs, h, rest, _ => congrArg (Token.openArray :: ·) (tokens_items xs h rest)
  | .object ms, h, rest, _ => congrArg (Token.openObject :: ·) (tokens_members ms h.2 rest)

theorem tokens_items : ∀ (xs : List Json), CanonicalItems xs → ∀ rest,
    Scan.between.tokens (writeItems xs ++ rest) = spellItems xs ++ Scan.between.tokens rest
  | [], _, _ => rfl
  | x :: xs, h, rest => by
    have hx := tokens_write x h.1 _ (ends_moreItems xs rest)
    simp only [writeItems, spellItems, List.append_assoc]
    rw [hx, tokens_moreItems xs h.2 rest]

theorem tokens_moreItems : ∀ (xs : List Json), CanonicalItems xs → ∀ rest,
    Scan.between.tokens (writeMoreItems xs ++ rest) = spellMoreItems xs ++ Scan.between.tokens rest
  | [], _, _ => rfl
  | x :: xs, h, rest => by
    have hcomma : Scan.between.step 0x2C = Scan.emit .comma := rfl
    have hx := tokens_write x h.1 _ (ends_moreItems xs rest)
    simp only [writeMoreItems, spellMoreItems, List.cons_append, List.append_assoc]
    rw [Scan.tokens_emit hcomma, hx, tokens_moreItems xs h.2 rest]

theorem tokens_members : ∀ (ms : List (String × Json)), CanonicalMembers ms → ∀ rest,
    Scan.between.tokens (writeMembers ms ++ rest) = spellMembers ms ++ Scan.between.tokens rest
  | [], _, _ => rfl
  | (k, x) :: ms, h, rest => by
    have hcolon : Scan.between.step 0x3A = Scan.emit .colon := rfl
    have hx := tokens_write x h.1 _ (ends_moreMembers ms rest)
    simp only [writeMembers, spellMembers, List.cons_append, List.append_assoc]
    rw [Scan.tokens_writeString, Scan.tokens_emit hcolon, hx, tokens_moreMembers ms h.2 rest]

theorem tokens_moreMembers : ∀ (ms : List (String × Json)), CanonicalMembers ms → ∀ rest,
    Scan.between.tokens (writeMoreMembers ms ++ rest) =
      spellMoreMembers ms ++ Scan.between.tokens rest
  | [], _, _ => rfl
  | (k, x) :: ms, h, rest => by
    have hcomma : Scan.between.step 0x2C = Scan.emit .comma := rfl
    have hcolon : Scan.between.step 0x3A = Scan.emit .colon := rfl
    have hx := tokens_write x h.1 _ (ends_moreMembers ms rest)
    simp only [writeMoreMembers, spellMoreMembers, List.cons_append, List.append_assoc]
    rw [Scan.tokens_emit hcomma, Scan.tokens_writeString, Scan.tokens_emit hcolon, hx,
      tokens_moreMembers ms h.2 rest]

end

end Json
end SessionAttributes
