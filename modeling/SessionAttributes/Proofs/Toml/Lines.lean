import Mathlib.Data.List.Forall2
import SessionAttributes.Proofs.Toml.Quoted
import SessionAttributes.Toml.Document

namespace SessionAttributes.Toml

section Digits
variable {c : Char} {ds rest : List Char}

theorem digit_value (h : c.isDigit = true) : digit 10 c = some (c.toNat - '0'.toNat) := by
  simp only [Char.isDigit, Bool.and_eq_true, decide_eq_true_eq] at h
  have hvalue : Bytes.hexValue c = some (c.toNat - '0'.toNat) := if_pos h
  have hten : c.toNat - '0'.toNat < 10 := by
    have hnine : c.toNat ≤ 57 := h.2
    change c.toNat - 48 < 10
    omega
  rw [digit, hvalue]
  exact if_pos (decide_eq_true hten)

theorem digits_all (h : ∀ c ∈ ds, c.isDigit = true) (rest : List Char) :
    digits 10 (ds ++ '\n' :: rest) = (ds.map fun c => c.toNat - '0'.toNat, '\n' :: rest) := by
  induction ds with
  | nil => rfl
  | cons c ds ih =>
    obtain ⟨hc, hds⟩ := List.forall_mem_cons.mp h
    have hne : c ≠ '_' := by
      rintro rfl
      exact absurd hc (by decide)
    rw [List.cons_append, digits.eq_3 _ _ _ fun _ _ he => absurd he hne, digit_value hc, ih hds]
    rfl

theorem ofDigits_toDigits (n : Nat) :
    ofDigits 10 ((Nat.toDigits 10 n).map fun c => c.toNat - '0'.toNat) = n := by
  rw [ofDigits, List.foldl_map, ← Nat.ofDigitChars_eq_foldl, Nat.ofDigitChars_ten_toDigits]

/-- Only zero starts with a zero. -/
theorem toDigits_starts {n : Nat} (h : 0 < n) : ∃ c t, Nat.toDigits 10 n = c :: t ∧ c ≠ '0' := by
  induction n using Nat.strongRecOn with
  | _ n ih =>
    rcases Nat.lt_or_ge n 10 with hlt | hge
    · have hall : ∀ d : Fin 10, 0 < d.val → d.val.digitChar ≠ '0' := by decide
      exact ⟨_, [], Nat.toDigits_of_lt_base hlt, hall ⟨n, hlt⟩ h⟩
    · obtain ⟨c, t, ht, hc⟩ := ih (n / 10) (by omega) (by omega)
      rw [Nat.toDigits_of_base_le (by decide) hge, ht]
      exact ⟨c, _, rfl, hc⟩

theorem wholeRun_toDigits (n : Nat) (rest : List Char) :
    wholeRun (Nat.toDigits 10 n ++ '\n' :: rest) =
      some ((Nat.toDigits 10 n).map fun c => c.toNat - '0'.toNat, '\n' :: rest) := by
  rcases Nat.eq_zero_or_pos n with rfl | hpos
  · rfl
  · have hall : ∀ c ∈ Nat.toDigits 10 n, c.isDigit = true := fun c hc =>
      Nat.isDigit_of_mem_toDigits (by decide) (by decide) hc
    obtain ⟨c, ds, hds, hne⟩ := toDigits_starts hpos
    rw [hds] at hall ⊢
    obtain ⟨hc, hall⟩ := List.forall_mem_cons.mp hall
    rw [List.cons_append, wholeRun.eq_2 _ fun _ he => hne (List.cons.inj he).1, digitRun,
      digit_value hc, digits_all hall]
    rfl

theorem isSome_of_mapM {α β : Type} {f : α → Option β} {as : List α} {bs : List β}
    (h : as.mapM f = some bs) : ∀ a ∈ as, (f a).isSome = true := by
  induction as generalizing bs with
  | nil => exact List.forall_mem_nil _
  | cons a as ih =>
    rw [List.mapM_cons] at h
    obtain ⟨b, hb, h⟩ := Option.bind_eq_some_iff.mp h
    obtain ⟨bs, hbs, -⟩ := Option.bind_eq_some_iff.mp h
    exact List.forall_mem_cons.mpr ⟨Option.isSome_of_mem hb, ih hbs⟩

theorem numberOf_some {width low high : Nat} {cs : List Char} {x : Nat × List Char}
    (h : numberOf width low high cs = some x) :
    (∀ c ∈ cs.take width, (digit 10 c).isSome = true) ∧ x.2 = cs.drop width := by
  unfold numberOf at h
  obtain ⟨_, -, h⟩ := Option.bind_eq_some_iff.mp h
  obtain ⟨ds, hds, h⟩ := Option.bind_eq_some_iff.mp h
  obtain ⟨_, -, h⟩ := Option.bind_eq_some_iff.mp h
  obtain rfl := Option.some.inj h
  exact ⟨isSome_of_mapM hds, rfl⟩

/-- Dates and times do not go on as a row of digits does. -/
theorem numberOf_mark (h : ∀ c ∈ ds, c.isDigit = true) {width low high : Nat} {x : Nat × List Char}
    (hx : numberOf width low high (ds ++ '\n' :: rest) = some x) (hc : c.isDigit = false)
    (hn : c ≠ '\n') : mark c x.2 = none := by
  obtain ⟨hall, hrest⟩ := numberOf_some hx
  have hw : width ≤ ds.length := by
    refine Nat.le_of_not_lt fun hlt => ?_
    have hm : '\n' ∈ (ds ++ '\n' :: rest).take width := by
      rw [List.take_append, List.take_of_length_le (Nat.le_of_lt hlt)]
      obtain ⟨k, hk⟩ := Nat.exists_eq_succ_of_ne_zero (Nat.sub_ne_zero_of_lt hlt)
      rw [hk, List.take_succ_cons]
      exact List.mem_append_right _ List.mem_cons_self
    exact absurd (hall _ hm) (by decide)
  rw [hrest, List.drop_append_of_le_length hw]
  have hdrop : ∀ d ∈ ds.drop width, d.isDigit = true := fun d hd => h d (List.mem_of_mem_drop hd)
  cases hds : ds.drop width with
  | nil => exact if_neg (Ne.symm hn)
  | cons d more =>
    have hd := hdrop d (hds ▸ List.mem_cons_self)
    refine if_neg fun he => ?_
    rw [he, hc] at hd
    cases hd

theorem readMoment_digits (h : ∀ c ∈ ds, c.isDigit = true) (rest : List Char) :
    readMoment (ds ++ '\n' :: rest) = none := by
  have hdate : skipDate (ds ++ '\n' :: rest) = none := by
    unfold skipDate
    cases hx : numberOf 4 0 9999 (ds ++ '\n' :: rest) with
    | none => rfl
    | some x =>
      have hmark := numberOf_mark h hx (by decide : '-'.isDigit = false) (by decide)
      simp [hmark]
  have htime : skipTime (ds ++ '\n' :: rest) = none := by
    unfold skipTime skipHourAndMinute
    cases hx : numberOf 2 0 23 (ds ++ '\n' :: rest) with
    | none => rfl
    | some x =>
      have hmark := numberOf_mark h hx (by decide : ':'.isDigit = false) (by decide)
      simp [hmark]
  simp [readMoment, skipMoment, hdate, htime]

end Digits

structure Written (text : List Char) (v : Toml) : Prop where
  reads : ∀ rest, readScalar (text ++ '\n' :: rest) = some (v, '\n' :: rest)
  starts : ∃ c t, text = c :: t ∧ isBlank c = false ∧ c ≠ '[' ∧ c ≠ '\x7b'

theorem written_string (s : String) : Written (writeString s).toList (.string s) := by
  refine ⟨fun rest => ?_, ?_⟩
  · have hread := readString_writeString s
      (by simp : ('\n' :: rest).head? ≠ some '"') (by simp : ('\n' :: rest).head? ≠ some '\'')
    rw [readScalar, hread]
    rfl
  · unfold writeString
    dsimp only
    rw [String.toList_ofList]
    cases form s.toList with
    | basic => exact ⟨'"', _, rfl, by decide⟩
    | literal => exact ⟨'\'', _, rfl, by decide⟩
    | basicLines => exact ⟨'"', _, rfl, by decide⟩
    | literalLines => exact ⟨'\'', _, rfl, by decide⟩

theorem written_boolean (b : Bool) : Written (toString b).toList (.boolean b) := by
  cases b with
  | true => exact ⟨fun _ => rfl, 't', _, rfl, by decide⟩
  | false => exact ⟨fun _ => rfl, 'f', _, rfl, by decide⟩

section Counts
variable {cs rest : List Char} {values : List Nat}

/-- A text that starts with a digit, and goes on with another one or with the end of its line. -/
structure StartsWhole (cs : List Char) : Prop where
  first : ∀ d tail, cs = d :: tail → d.isDigit = true
  next : ∀ d e tail, cs = d :: e :: tail → e.isDigit = true ∨ e = '\n'

theorem startsWhole_digits {ds : List Char} (hne : ds ≠ []) (h : ∀ c ∈ ds, c.isDigit = true)
    (rest : List Char) : StartsWhole (ds ++ '\n' :: rest) := by
  obtain ⟨c, ds, rfl⟩ := List.exists_cons_of_ne_nil hne
  refine ⟨fun d tail he => ?_, fun d e tail he => ?_⟩
  · exact (List.cons.inj he).1 ▸ h c List.mem_cons_self
  · have hnext := (List.cons.inj he).2
    cases ds with
    | nil => exact .inr (List.cons.inj hnext).1.symm
    | cons e' ds =>
      exact .inl ((List.cons.inj hnext).1 ▸ h e' (List.mem_cons_of_mem _ List.mem_cons_self))

namespace StartsWhole

theorem ne (h : StartsWhole cs) {d : Char} (hd : d.isDigit = false) (tail : List Char) :
    cs ≠ d :: tail := fun he => Bool.noConfusion (hd.symm.trans (h.first d tail he))

theorem ne_mark (h : StartsWhole cs) (d : Char) {e : Char} (he : e.isDigit = false) (hn : e ≠ '\n')
    (tail : List Char) : cs ≠ d :: e :: tail := by
  intro hcs
  rcases h.next d e tail hcs with hdigit | hbreak
  · exact Bool.noConfusion (he.symm.trans hdigit)
  · exact hn hbreak

theorem readString (h : StartsWhole cs) : readString cs = none :=
  readString.eq_5 _ (fun _ => h.ne (by decide) _) (fun _ => h.ne (by decide) _)
    (fun _ => h.ne (by decide) _) fun _ => h.ne (by decide) _

theorem readBoolean (h : StartsWhole cs) : readBoolean cs = none :=
  readBoolean.eq_3 _ (fun _ => h.ne (by decide) _) fun _ => h.ne (by decide) _

theorem sign (h : StartsWhole cs) : sign cs = (none, cs) :=
  sign.eq_3 _ (fun _ => h.ne (by decide) _) fun _ => h.ne (by decide) _

/-- A whole number at the end of its line has no fraction and no exponent. -/
theorem readDecimal (h : StartsWhole cs) (hw : wholeRun cs = some (values, '\n' :: rest)) :
    readDecimal cs = none := by
  unfold Toml.readDecimal
  rw [h.sign]
  simp [hw, fraction, exponent]

theorem readSpecial (h : StartsWhole cs) : readSpecial cs = none := by
  unfold Toml.readSpecial
  rw [h.sign]
  dsimp only
  split
  · exact absurd rfl (h.ne (by decide) _)
  · exact absurd rfl (h.ne (by decide) _)
  · rfl

theorem readInteger (h : StartsWhole cs) (hw : wholeRun cs = some (values, '\n' :: rest)) {n : Int}
    (hn : inRange (ofDigits 10 values) = some n) : readInteger cs = some (n, '\n' :: rest) := by
  rw [readInteger.eq_4 _ (fun _ => h.ne_mark _ (by decide) (by decide) _)
    (fun _ => h.ne_mark _ (by decide) (by decide) _)
    fun _ => h.ne_mark _ (by decide) (by decide) _, h.sign]
  simp [hw, hn]

end StartsWhole

theorem written_count {n : Nat} (h : (n : Int) ≤ greatest) :
    Written (toString n).toList (.integer n) := by
  rw [Nat.toString_eq_ofList_toDigits, String.toList_ofList]
  have hne : Nat.toDigits 10 n ≠ [] := Nat.toDigits_ne_nil
  have hall : ∀ c ∈ Nat.toDigits 10 n, c.isDigit = true := fun c hc =>
    Nat.isDigit_of_mem_toDigits (by decide) (by decide) hc
  have hrange : inRange (ofDigits 10 ((Nat.toDigits 10 n).map fun c => c.toNat - '0'.toNat)) =
      some (n : Int) := by
    rw [ofDigits_toDigits]
    exact if_pos ⟨by simp only [least]; omega, h⟩
  refine ⟨fun rest => ?_, ?_⟩
  · have hstarts := startsWhole_digits hne hall rest
    have hwhole := wholeRun_toDigits n rest
    rw [readScalar, hstarts.readString, hstarts.readBoolean, readMoment_digits hall, readReal,
      hstarts.readDecimal hwhole, hstarts.readSpecial, hstarts.readInteger hwhole hrange]
    rfl
  · obtain ⟨c, ds, hds⟩ := List.exists_cons_of_ne_nil hne
    have hstarts := startsWhole_digits hne hall []
    have hhead : ∀ d, d.isDigit = false → c ≠ d := fun d hd he =>
      hstarts.ne hd (ds ++ ['\n']) (by rw [hds, he]; rfl)
    refine ⟨c, ds, hds, ?_, hhead '[' (by decide), hhead '\x7b' (by decide)⟩
    simp [isBlank, hhead ' ' (by decide), hhead '\t' (by decide)]

end Counts

section Keys
variable {rest : List Char} {most : Nat}

def Bare (name : String) : Prop := name.toList ≠ [] ∧ ∀ c ∈ name.toList, isBare c = true

instance (name : String) : Decidable (Bare name) :=
  decidable_of_iff (name.toList ≠ [] ∧ name.toList.all isBare = true) (by simp [Bare])

theorem Bare.starts {name : String} (h : Bare name) :
    ∃ c t, name.toList = c :: t ∧ isBare c = true := by
  obtain ⟨c, t, ht⟩ := List.exists_cons_of_ne_nil h.1
  exact ⟨c, t, ht, h.2 c (ht ▸ List.mem_cons_self)⟩

theorem keyPart_bare {name : String} (h : Bare name) (hr : ∀ c ∈ rest.head?, isBare c = false) :
    keyPart (name.toList ++ rest) = some (name, rest) := by
  obtain ⟨c, t, ht, hc⟩ := h.starts
  have hquote : ∀ quote tail, isBare quote = false → name.toList ++ rest ≠ quote :: tail := by
    intro quote tail hq he
    rw [ht] at he
    rw [(List.cons.inj he).1, hq] at hc
    cases hc
  have htake : (name.toList ++ rest).takeWhile isBare = name.toList := by
    rw [List.takeWhile_append_of_pos h.2]
    cases rest with
    | nil => simp
    | cons d rest => simp [hr d rfl]
  have hdrop : (name.toList ++ rest).dropWhile isBare = rest := by
    rw [List.dropWhile_append_of_pos h.2]
    cases rest with
    | nil => rfl
    | cons d rest => simp [hr d rfl]
  rw [keyPart.eq_3 _ (fun tail => hquote '"' tail (by decide)) fun tail =>
    hquote '\'' tail (by decide), htake, hdrop]
  simp [h.1]

theorem skipBlanks_of_head {cs : List Char} (h : ∀ c ∈ cs.head?, isBlank c = false) :
    skipBlanks cs = cs := by
  cases cs with
  | nil => rfl
  | cons c cs => simp [skipBlanks, h c rfl]

theorem bare_not_blank {c : Char} (h : isBare c = true) : isBlank c = false := by
  refine Bool.eq_false_iff.mpr fun hb => ?_
  simp only [isBlank, Bool.or_eq_true, beq_iff_eq] at hb
  rcases hb with rfl | rfl <;> exact absurd h (by decide)

theorem Bare.skipBlanks {name : String} (h : Bare name) (cs : List Char) :
    skipBlanks (name.toList ++ cs) = name.toList ++ cs := by
  obtain ⟨c, t, ht, hc⟩ := h.starts
  refine skipBlanks_of_head fun d hd => ?_
  rw [ht] at hd
  obtain rfl := Option.some.inj hd
  exact bare_not_blank hc

/-- The parts of a path, with a point between them. -/
theorem keyParts_path {path : List String} (hne : path ≠ []) (hp : ∀ part ∈ path, Bare part)
    (hl : path.length ≤ most) (hr : ∀ c ∈ rest.head?, isBare c = false)
    (hd : ∀ tail, Toml.skipBlanks rest ≠ '.' :: tail) :
    keyParts most ((".".intercalate path).toList ++ rest) = some (path, Toml.skipBlanks rest) := by
  induction path generalizing most with
  | nil => exact absurd rfl hne
  | cons part path ih =>
    obtain ⟨hpart, hpath⟩ := List.forall_mem_cons.mp hp
    obtain ⟨most, rfl⟩ := Nat.exists_eq_succ_of_ne_zero (Nat.ne_of_gt
      (Nat.lt_of_lt_of_le (Nat.succ_pos path.length) hl))
    cases path with
    | nil =>
      rw [String.intercalate_singleton, keyParts.eq_2, hpart.skipBlanks, keyPart_bare hpart hr]
      simp only [Option.bind_eq_bind, Option.bind_some]
      rfl
    | cons next path =>
      have hmore := ih (List.cons_ne_nil _ _) hpath (Nat.le_of_succ_le_succ hl)
      rw [String.intercalate_cons_cons, String.toList_append, String.toList_append,
        List.append_assoc, List.append_assoc, keyParts.eq_2, hpart.skipBlanks,
        keyPart_bare hpart (by intro c hc; obtain rfl := Option.some.inj hc; decide)]
      have hpoint : ∀ cs, Toml.skipBlanks (".".toList ++ cs) = '.' :: cs := fun _ => rfl
      simp only [Option.bind_eq_bind, Option.bind_some, hpoint, hmore]
      rfl

theorem intercalate_starts {path : List String} (hne : path ≠ []) (hp : ∀ part ∈ path, Bare part) :
    ∃ c t, (".".intercalate path).toList = c :: t ∧ isBare c = true := by
  obtain ⟨part, path, rfl⟩ := List.exists_cons_of_ne_nil hne
  obtain ⟨c, t, ht, hc⟩ := (hp part List.mem_cons_self).starts
  cases path with
  | nil =>
    rw [String.intercalate_singleton]
    exact ⟨c, t, ht, hc⟩
  | cons next path =>
    rw [String.intercalate_cons_cons, String.toList_append, String.toList_append, ht]
    exact ⟨c, _, rfl, hc⟩

def keyOf (path : List String) : Key := ⟨path.dropLast, path.getLast?.getD ""⟩

theorem readKey_path {path : List String} (hne : path ≠ []) (hp : ∀ part ∈ path, Bare part)
    (hl : path.length ≤ nestingLimit) (hr : ∀ c ∈ rest.head?, isBare c = false)
    (hd : ∀ tail, Toml.skipBlanks rest ≠ '.' :: tail) :
    readKey ((".".intercalate path).toList ++ rest) =
      some (keyOf path, Toml.skipBlanks rest) := by
  rw [readKey, keyParts_path hne hp hl hr hd]
  rfl

end Keys

section Lines
variable {rest : List Char} {lines : List Line}

/-- The header of a table. -/
theorem readLine_header {path : List String} (hne : path ≠ []) (hp : ∀ part ∈ path, Bare part)
    (hl : path.length ≤ nestingLimit) (rest : List Char) :
    readLine ('[' :: ((".".intercalate path).toList ++ ']' :: '\n' :: rest)) =
      some (some (.header (keyOf path)), rest) := by
  have hbare : ∀ c ∈ (']' :: '\n' :: rest).head?, isBare c = false := by
    intro c hc
    obtain rfl := Option.some.inj hc
    decide
  have hpoint : ∀ tail, skipBlanks (']' :: '\n' :: rest) ≠ '.' :: tail := fun tail he =>
    absurd (List.cons.inj he).1 (by decide)
  have hone : ∀ tail, (".".intercalate path).toList ++ ']' :: '\n' :: rest = '[' :: tail → False := by
    intro tail he
    obtain ⟨c, t, ht, hc⟩ := intercalate_starts hne hp
    rw [ht] at he
    rw [(List.cons.inj he).1] at hc
    exact absurd hc (by decide)
  rw [readLine.eq_2 _ hone, readKey_path hne hp hl hbare hpoint]
  rfl

/-- A name is no end of a line. -/
theorem lineEnd_bare {c : Char} (h : isBare c = true) (cs : List Char) : lineEnd (c :: cs) = none := by
  have hne : ∀ d, isBare d = false → c ≠ d := fun d hd he => by
    rw [he, hd] at h
    cases h
  have hskip : skipBlanks (c :: cs) = c :: cs := skipBlanks_of_head fun d hd => by
    obtain rfl := Option.some.inj hd
    exact bare_not_blank h
  have hcomment : skipComment (c :: cs) = c :: cs :=
    skipComment.eq_2 _ fun _ he => hne '#' (by decide) (List.cons.inj he).1
  have hbreak : newline (c :: cs) = none :=
    newline.eq_3 _ (fun _ he => hne '\n' (by decide) (List.cons.inj he).1)
      fun _ he => hne '\r' (by decide) (List.cons.inj he).1
  rw [lineEnd, hskip, hcomment]
  exact hbreak

theorem readValue_written {text : List Char} {v : Toml} (h : Written text v) (rest : List Char) :
    readValue nestingLimit (text ++ '\n' :: rest) = some (v, '\n' :: rest) := by
  obtain ⟨c, t, ht, -, hbracket, hbrace⟩ := h.starts
  have hread := h.reads rest
  rw [ht] at hread ⊢
  exact (readValue.eq_4 _ _ (fun _ he => hbracket (List.cons.inj he).1)
    fun _ he => hbrace (List.cons.inj he).1).trans hread

/-- An entry of a table. -/
theorem readLine_assign {name : String} {text : List Char} {v : Toml} (hn : Bare name)
    (hv : Written text v) (rest : List Char) :
    readLine (name.toList ++ ' ' :: '=' :: ' ' :: (text ++ '\n' :: rest)) =
      some (some (.assign ⟨[], name⟩ v), rest) := by
  obtain ⟨c, t, ht, hc⟩ := hn.starts
  have hkey : readKey (name.toList ++ ' ' :: '=' :: ' ' :: (text ++ '\n' :: rest)) =
      some (⟨[], name⟩, '=' :: ' ' :: (text ++ '\n' :: rest)) := by
    have hbare : ∀ c ∈ (' ' :: '=' :: ' ' :: (text ++ '\n' :: rest)).head?, isBare c = false := by
      intro c hc
      obtain rfl := Option.some.inj hc
      decide
    have hpoint : ∀ tail, skipBlanks (' ' :: '=' :: ' ' :: (text ++ '\n' :: rest)) ≠ '.' :: tail :=
      fun tail he => absurd (List.cons.inj he).1 (by decide)
    have hpath := readKey_path (List.cons_ne_nil name []) (List.forall_mem_singleton.mpr hn)
      (show 1 ≤ nestingLimit by decide) hbare hpoint
    rwa [String.intercalate_singleton] at hpath
  have hblank : skipBlanks (' ' :: (text ++ '\n' :: rest)) = text ++ '\n' :: rest := by
    obtain ⟨d, u, hu, hd, -⟩ := hv.starts
    refine (skipBlanks_of_head fun e he => ?_ : skipBlanks (text ++ '\n' :: rest) = _)
    rw [hu] at he
    obtain rfl := Option.some.inj he
    exact hd
  have hassign : readAssignment (readValue nestingLimit)
      (name.toList ++ ' ' :: '=' :: ' ' :: (text ++ '\n' :: rest)) =
        some ((⟨[], name⟩, v), '\n' :: rest) := by
    rw [readAssignment, hkey]
    simp only [Option.bind_eq_bind, Option.bind_some, mark, if_true, hblank, readValue_written hv]
    rfl
  rw [ht, List.cons_append] at hassign ⊢
  have hne : ∀ tail, c :: (t ++ ' ' :: '=' :: ' ' :: (text ++ '\n' :: rest)) = '[' :: tail → False := by
    intro tail he
    rw [(List.cons.inj he).1] at hc
    exact absurd hc (by decide)
  rw [readLine.eq_3 _ (fun tail => hne ('[' :: tail)) hne, lineEnd_bare hc, hassign]
  rfl

def Reads (cs : List Char) (lines : List Line) : Prop :=
  ∀ most, cs.length < most → readLines most cs = some lines

theorem reads_nil : Reads [] [] := by
  intro most hm
  obtain ⟨most, rfl⟩ := Nat.exists_eq_succ_of_ne_zero (Nat.ne_of_gt hm)
  rfl

theorem Reads.cons (h : Reads rest lines) {c : Char} {cs : List Char} (line : Option Line)
    (hc : isBlank c = false) (hr : readLine (c :: cs) = some (line, rest))
    (hl : rest.length ≤ cs.length) : Reads (c :: cs) (line.toList ++ lines) := by
  intro most hm
  obtain ⟨most, rfl⟩ := Nat.exists_eq_succ_of_ne_zero (Nat.ne_of_gt
    (Nat.lt_of_le_of_lt (Nat.zero_le _) hm))
  have hrest := h most (by simp only [List.length_cons] at hm; omega)
  have hskip : skipBlanks (c :: cs) = c :: cs := skipBlanks_of_head fun d hd => by
    obtain rfl := Option.some.inj hd
    exact hc
  rw [readLines, hskip]
  dsimp only
  rw [hr]
  change (do return line.toList ++ (← readLines most rest)) = _
  rw [hrest]
  rfl

theorem Reads.gap (h : Reads rest lines) : Reads ('\n' :: rest) lines :=
  h.cons none rfl rfl (Nat.le_refl _)

theorem Reads.comment (h : Reads rest lines) {text : List Char}
    (hp : ∀ c ∈ text, isPlain c = true) : Reads ('#' :: (text ++ '\n' :: rest)) lines := by
  have hplain : isPlain '\n' = false := rfl
  have hcomment : skipComment (skipBlanks ('#' :: (text ++ '\n' :: rest))) = '\n' :: rest := by
    change (text ++ '\n' :: rest).dropWhile isPlain = _
    rw [List.dropWhile_append_of_pos hp, List.dropWhile_cons_of_neg (by simp [hplain])]
  have hend : lineEnd ('#' :: (text ++ '\n' :: rest)) = some rest := by
    rw [lineEnd, hcomment]
    rfl
  refine h.cons none rfl ?_ (by simp; omega)
  rw [readLine.eq_3 _ (by simp) (by simp), hend]

theorem Reads.header (h : Reads rest lines) {path : List String} (hne : path ≠ [])
    (hp : ∀ part ∈ path, Bare part) (hl : path.length ≤ nestingLimit) :
    Reads ('[' :: ((".".intercalate path).toList ++ ']' :: '\n' :: rest))
      (.header (keyOf path) :: lines) :=
  h.cons (some _) rfl (readLine_header hne hp hl rest) (by simp; omega)

theorem Reads.assign (h : Reads rest lines) {name : String} {text : List Char} {v : Toml}
    (hn : Bare name) (hv : Written text v) :
    Reads (name.toList ++ ' ' :: '=' :: ' ' :: (text ++ '\n' :: rest))
      (.assign ⟨[], name⟩ v :: lines) := by
  have hread := readLine_assign hn hv rest
  obtain ⟨c, t, ht, hc⟩ := hn.starts
  rw [ht] at hread ⊢
  exact h.cons (some _) (bare_not_blank hc) hread (by simp; omega)

def assignments (values : Entries) : List Line := values.map fun e => .assign ⟨[], e.1⟩ e.2

def tableLines (path : List String) (values : Entries) : List Line :=
  .header (keyOf path) :: assignments values

structure Entered (e : String × String) (v : String × Toml) : Prop where
  name : e.1 = v.1
  bare : Bare v.1
  written : Written e.2.toList v.2

theorem intercalate_nil_left {α : Type} (texts : List (List α)) :
    [].intercalate texts = texts.flatten := by
  induction texts with
  | nil => rfl
  | cons text texts ih =>
    cases texts with
    | nil => simp
    | cons next texts => simp [List.intercalate_cons_cons, ih]

/-- A table: its header and its entries. -/
theorem Reads.table (h : Reads rest lines) {path : List String} (hne : path ≠ [])
    (hp : ∀ part ∈ path, Bare part) (hl : path.length ≤ nestingLimit)
    {entries : List (String × String)} {values : Entries}
    (he : List.Forall₂ Entered entries values) :
    Reads ((writeTable path entries).toList ++ rest) (tableLines path values ++ lines) := by
  have hentries : Reads ((entries.map fun e =>
      e.1.toList ++ ' ' :: '=' :: ' ' :: (e.2.toList ++ ['\n'])).flatten ++ rest)
        (assignments values ++ lines) := by
    induction he with
    | nil => exact h
    | @cons e v entries values he _ ih =>
      have hassign := ih.assign he.bare he.written
      rw [← he.name] at hassign
      simpa [assignments, he.name] using hassign
  have htext : (writeTable path entries).toList ++ rest =
      '[' :: ((".".intercalate path).toList ++ ']' :: '\n' :: ((entries.map fun e =>
        e.1.toList ++ ' ' :: '=' :: ' ' :: (e.2.toList ++ ['\n'])).flatten ++ rest)) := by
    simp [writeTable, String.toList_append, String.toList_intercalate, intercalate_nil_left,
      Function.comp_def]
  rw [htext]
  exact hentries.header hne hp hl

end Lines
end SessionAttributes.Toml
