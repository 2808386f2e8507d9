import Mathlib.Tactic.SplitIfs
import SessionAttributes.Toml.Printer

namespace SessionAttributes.Toml

section Escapes

/-- How a character stands between double quotes: for itself, or by an escape. -/
inductive Shows (lines : Bool) (c : Char) : List Char → Prop
  | itself (hp : isPlain c = true ∨ lines = true ∧ c = '\n') (hb : c ≠ '\\') (hq : c ≠ '"') :
      Shows lines c [c]
  | escape {e : List Char} (he : ∀ rest, escape (e ++ rest) = some (c, rest))
      (hl : ∀ rest, lineEscape (e ++ rest) = none) : Shows lines c ('\\' :: e)

theorem quote_shows (lines : Bool) : Shows lines '"' ['\\', '"'] :=
  .escape (fun _ => rfl) fun _ => rfl

theorem hexNumber_hex4 {n : Nat} (h : n < 128) : hexNumber (hex4 n) = some n := by
  have hall : ∀ n : Fin 128, hexNumber (hex4 n.val) = some n.val := by decide
  exact hall ⟨n, h⟩

theorem escape_hex4 {c : Char} (h : c.toNat < 128) (rest : List Char) :
    escape ('u' :: hex4 c.toNat ++ rest) = some (c, rest) := by
  have hlen : (hex4 c.toNat).length = 4 := rfl
  have hroom : (guard (4 ≤ 4 + rest.length) : Option Unit) = some () :=
    if_pos (Nat.le_add_right 4 _)
  have hvalid : (guard c.toNat.isValidChar : Option Unit) = some () := if_pos c.valid
  change codePoint 4 (hex4 c.toNat ++ rest) = _
  unfold codePoint
  rw [List.length_append, hlen, List.take_left' hlen, List.drop_left' hlen, hexNumber_hex4 h]
  rw [hroom, Option.bind_eq_bind, Option.bind_some, Option.bind_eq_bind, Option.bind_some, hvalid,
    Char.ofNat_toNat]
  rfl

theorem control_lt {c : Char} (h : isControl c = true) : c.toNat < 128 := by
  rcases Nat.lt_or_ge c.toNat 128 with hlt | hge
  · exact hlt
  · have h20 : 0x20 ≤ c.toNat := by omega
    have h7f : c.toNat ≠ 0x7F := by omega
    simp [isControl, isPlain, h20, h7f] at h

theorem escaped_shows (lines : Bool) {c : Char} (hq : c ≠ '"') : Shows lines c (escaped lines c) := by
  unfold escaped
  split_ifs with h1 h2 h3 h4 h5 h6 h7 h8
  · subst h1
    exact .escape (fun _ => rfl) fun _ => rfl
  · subst h2
    exact .escape (fun _ => rfl) fun _ => rfl
  · exact .itself (.inr ⟨h4, h3⟩) (by simp [h3]) hq
  · subst h3
    exact .escape (fun _ => rfl) fun _ => rfl
  · subst h5
    exact .escape (fun _ => rfl) fun _ => rfl
  · subst h6
    exact .escape (fun _ => rfl) fun _ => rfl
  · subst h7
    exact .escape (fun _ => rfl) fun _ => rfl
  · exact .escape (escape_hex4 (control_lt h8)) fun _ => rfl
  · refine .itself (.inl ?_) h7 hq
    simpa [isControl, h3] using h8

end Escapes

section Basic
variable {c : Char} {piece rest rest' text : List Char} {lines : Bool}

theorem plain_ne_break (h : isPlain c = true) : c ≠ '\n' ∧ c ≠ '\r' := by
  constructor <;> rintro rfl <;> exact absurd h (by decide)

/-- No character is shown by what starts with a double quote, and none but a line break by what
starts with one. -/
theorem Shows.starts (h : Shows lines c piece) :
    ∃ d e, piece = d :: e ∧ d ≠ '"' ∧ (c ≠ '\n' → d ≠ '\n' ∧ d ≠ '\r') := by
  cases h with
  | itself hp hb hq =>
    refine ⟨c, [], rfl, hq, fun hn => ?_⟩
    exact plain_ne_break (hp.resolve_right fun h => hn h.2)
  | escape he hl => exact ⟨'\\', _, rfl, by decide, fun _ => by decide⟩

theorem Shows.readBasic (h : Shows false c piece) (hr : readBasic rest = some (text, rest')) :
    readBasic (piece ++ rest) = some (c :: text, rest') := by
  cases h with
  | itself hp hb hq =>
    have hplain : isPlain c = true := hp.resolve_right fun h => Bool.noConfusion h.1
    rw [List.singleton_append, readBasic.eq_4 c rest hq hb, if_pos hplain, hr]
    rfl
  | @escape e he hl =>
    have hescape := he rest
    rw [List.cons_append, readBasic.eq_3]
    split
    · rename_i hnone
      rw [hescape] at hnone
      cases hnone
    · rename_i c' rest'' hsome
      rw [hescape] at hsome
      cases hsome
      simp [hr]

/-- A text between double quotes. -/
theorem readBasic_escapeBody (run : Nat) (cs rest : List Char) :
    Toml.readBasic (escapeBody false run cs ++ '"' :: rest) = some (cs, rest) := by
  induction cs generalizing run with
  | nil => exact readBasic.eq_2 rest
  | cons c cs ih =>
    unfold escapeBody
    split
    · rename_i hq
      subst hq
      simp only [Bool.false_eq_true, false_and, if_false]
      exact (quote_shows false).readBasic (ih 0)
    · rename_i hq
      rw [List.append_assoc]
      exact (escaped_shows false hq).readBasic (ih 0)

theorem readLiteral_verbatim {cs : List Char} (hp : ∀ c ∈ cs, isPlain c = true)
    (hq : '\'' ∉ cs) (rest : List Char) : readLiteral (cs ++ '\'' :: rest) = some (cs, rest) := by
  induction cs with
  | nil => rfl
  | cons c cs ih =>
    obtain ⟨hc, hcs⟩ := List.forall_mem_cons.mp hp
    have hne : c ≠ '\'' := fun he => hq (he ▸ List.mem_cons_self)
    have hrest : '\'' ∉ cs := fun hm => hq (List.mem_cons_of_mem _ hm)
    rw [List.cons_append, readLiteral.eq_3 _ _ hne, if_pos hc, ih hcs hrest]
    rfl

end Basic

section Lines
variable {c quote : Char} {cs body piece rest rest' text : List Char}

/-- Where the closing quotes stand after at most two others, all of those belong to the text. -/
theorem tripleEnd_body (hb : ∀ n, List.replicate n quote <+: body → n ≤ 2)
    (hr : rest.head? ≠ some quote) :
    tripleEnd quote (body ++ quote :: quote :: quote :: rest) =
      if body.all (· == quote) then some (body, rest) else none := by
  match body with
  | [] =>
    match rest with
    | [] => simp [tripleEnd]
    | [d] => simp_all [tripleEnd]
    | d :: e :: rest => simp_all [tripleEnd]
  | [a] =>
    by_cases ha : a = quote
    · subst ha
      match rest with
      | [] => simp [tripleEnd]
      | d :: rest => simp_all [tripleEnd]
    · cases rest <;> simp [tripleEnd, ha]
  | [a, b] =>
    by_cases ha : a = quote
    · by_cases hb : b = quote
      · simp [tripleEnd, ha, hb]
      · simp [tripleEnd, ha, hb]
    · simp [tripleEnd, ha]
  | a :: b :: c :: body =>
    have hthree : ¬ (a = quote ∧ b = quote ∧ c = quote) := by
      rintro ⟨rfl, rfl, rfl⟩
      exact absurd (hb 3 ⟨body, rfl⟩) (by decide)
    have hall : (a :: b :: c :: body).all (· == quote) = false := by
      refine Bool.eq_false_iff.mpr fun h => hthree ?_
      simp only [List.all_cons, Bool.and_eq_true, beq_iff_eq] at h
      exact ⟨h.1, h.2.1, h.2.2.1⟩
    rw [hall, List.cons_append, List.cons_append, List.cons_append]
    unfold tripleEnd
    dsimp only
    rw [if_neg hthree, if_neg Bool.false_ne_true]

theorem Shows.readBasicLines (h : Shows true c piece)
    (hr : readBasicLines rest = some (text, rest')) :
    readBasicLines (piece ++ rest) = some (c :: text, rest') := by
  cases h with
  | itself hp hb hq =>
    rw [List.singleton_append]
    rcases hp with hplain | ⟨-, rfl⟩
    · obtain ⟨hn, hreturn⟩ := plain_ne_break hplain
      have hopen : tripleEnd '"' (c :: rest) = none := by
        unfold tripleEnd
        split
        · rename_i he
          rw [if_neg fun h => hq ((List.cons.inj he).1.trans h.1)]
        · rfl
      rw [readBasicLines.eq_5 _ _ hn (fun _ h _ => hreturn h) hb, hopen]
      simp [hplain, hr]
    · rw [readBasicLines.eq_2, hr]
      rfl
  | @escape e he hl =>
    have hescape := he rest
    have hline := hl rest
    rw [List.cons_append, readBasicLines.eq_4]
    split
    · rename_i hsome
      rw [hline] at hsome
      cases hsome
    · split
      · rename_i hnone
        rw [hescape] at hnone
        cases hnone
      · rename_i c' rest'' hsome
        rw [hescape] at hsome
        cases hsome
        simp [hr]

/-- No more than two double quotes in a row stand for themselves. -/
theorem escapeBody_run {run n : Nat} (hrun : run ≤ 2)
    (h : List.replicate n '"' <+: escapeBody true run cs) : run + n ≤ 2 := by
  induction cs generalizing run n with
  | nil =>
    have hn := h.length_le
    simp [escapeBody] at hn
    omega
  | cons c cs ih =>
    cases n with
    | zero => exact hrun
    | succ n =>
      unfold escapeBody at h
      split at h
      · split at h
        · rename_i hc hopen
          subst hc
          have hrest := ih (by omega) (List.prefix_cons_inj _ |>.mp h)
          omega
        · exact absurd (List.cons_prefix_cons.mp h).1 (by decide)
      · rename_i hq
        obtain ⟨d, e, hpiece, hd, -⟩ := (escaped_shows true hq).starts
        rw [hpiece] at h
        exact absurd (List.cons_prefix_cons.mp h).1.symm hd

/-- What is shown by nothing but double quotes is nothing but double quotes. -/
theorem escapeBody_quotes {run : Nat} (h : (escapeBody true run cs).all (· == '"') = true) :
    escapeBody true run cs = cs := by
  induction cs generalizing run with
  | nil => rfl
  | cons c cs ih =>
    unfold escapeBody at h ⊢
    split at h
    · rename_i hc
      rw [if_pos hc]
      split at h
      · rename_i hopen
        rw [if_pos hopen, ih (by simpa using (Bool.and_eq_true_iff.mp h).2)]
      · simp at h
    · rename_i hq
      obtain ⟨d, e, hpiece, hd, -⟩ := (escaped_shows true hq).starts
      simp [hpiece, hd] at h

/-- A text of several lines between double quotes. -/
theorem readBasicLines_escapeBody {run : Nat} (hrun : run ≤ 2) (hr : rest.head? ≠ some '"') :
    Toml.readBasicLines (escapeBody true run cs ++ '"' :: '"' :: '"' :: rest) =
      some (cs, rest) := by
  induction cs generalizing run with
  | nil =>
    have hend : tripleEnd '"' ([] ++ '"' :: '"' :: '"' :: rest) = some ([], rest) :=
      tripleEnd_body (by simp) hr
    rw [List.nil_append] at hend
    rw [escapeBody, List.nil_append, readBasicLines.eq_5 _ _ (by decide) (by simp) (by decide), hend]
  | cons c cs ih =>
    unfold escapeBody
    split
    · rename_i hq
      subst hq
      split
      · rename_i hopen
        have hrest := ih (show run + 1 ≤ 2 by omega)
        have hrun' : ∀ n, List.replicate n '"' <+: '"' :: escapeBody true (run + 1) cs → n ≤ 2 := by
          intro n h
          cases n with
          | zero => exact Nat.zero_le 2
          | succ n =>
            have hn := escapeBody_run (show run + 1 ≤ 2 by omega)
              ((List.prefix_cons_inj _).mp h)
            omega
        have hend := tripleEnd_body hrun' hr
        rw [List.cons_append] at hend ⊢
        rw [Toml.readBasicLines.eq_5 _ _ (by decide) (by simp) (by decide), hend]
        cases hall : ('"' :: escapeBody true (run + 1) cs).all (· == '"') with
        | true =>
          rw [if_pos rfl, escapeBody_quotes (Bool.and_eq_true_iff.mp hall).2]
        | false =>
          have hplain : isPlain '"' = true := rfl
          simp [hplain, hrest]
      · exact (quote_shows true).readBasicLines (ih (by omega))
    · rename_i hq
      rw [List.append_assoc]
      exact (escaped_shows true hq).readBasicLines (ih (by omega))

/-- A row of some length is within the longest one. -/
theorem longestRun_row {run n : Nat} (h : List.replicate n quote <+: cs) :
    run + n ≤ longestRun quote run cs := by
  induction cs generalizing run n with
  | nil =>
    have hn := h.length_le
    simp [longestRun] at hn ⊢
    omega
  | cons c cs ih =>
    cases n with
    | zero =>
      have hnone : List.replicate 0 quote <+: cs := List.nil_prefix
      unfold longestRun
      split
      · exact Nat.le_trans (Nat.le_succ _) (@ih (run + 1) 0 hnone)
      · exact Nat.le_max_left _ _
    | succ n =>
      obtain ⟨rfl, hcs⟩ := List.cons_prefix_cons.mp h
      have hrow := @ih (run + 1) n hcs
      rw [longestRun, if_pos rfl]
      omega

theorem longestRun_mono {run run' : Nat} (h : run ≤ run') :
    longestRun quote run cs ≤ longestRun quote run' cs := by
  induction cs generalizing run run' with
  | nil => exact h
  | cons c cs ih =>
    unfold longestRun
    split
    · exact ih (Nat.succ_le_succ h)
    · exact Nat.max_le.mpr
        ⟨Nat.le_trans h (Nat.le_max_left _ _), Nat.le_max_right _ _⟩

theorem longestRun_tail (quote c : Char) (cs : List Char) :
    longestRun quote 0 cs ≤ longestRun quote 0 (c :: cs) := by
  rw [longestRun]
  split
  · exact longestRun_mono (Nat.zero_le _)
  · exact Nat.le_max_right _ _

theorem longestRun_pos {run : Nat} (h : quote ∈ cs) : 0 < longestRun quote run cs := by
  induction cs generalizing run with
  | nil => cases h
  | cons c cs ih =>
    unfold longestRun
    split
    · have hnone : List.replicate 0 quote <+: cs := List.nil_prefix
      exact Nat.lt_of_lt_of_le (Nat.succ_pos run) (@longestRun_row _ _ (run + 1) 0 hnone)
    · rename_i hne
      have hm := (List.mem_cons.mp h).resolve_left fun he => hne he.symm
      exact Nat.lt_of_lt_of_le (ih hm) (Nat.le_max_right _ _)

/-- A text of several lines between single quotes. -/
theorem readLiteralLines_verbatim (hc : ∀ c ∈ cs, isControl c = false)
    (hs : longestRun '\'' 0 cs ≤ 2) (hr : rest.head? ≠ some '\'') :
    readLiteralLines (cs ++ '\'' :: '\'' :: '\'' :: rest) = some (cs, rest) := by
  induction cs with
  | nil =>
    have hend : tripleEnd '\'' ([] ++ '\'' :: '\'' :: '\'' :: rest) = some ([], rest) :=
      tripleEnd_body (by simp) hr
    rw [List.nil_append] at hend
    rw [List.nil_append, readLiteralLines.eq_4 _ _ (by decide) (by simp), hend]
  | cons c cs ih =>
    obtain ⟨hcontrol, hcs⟩ := List.forall_mem_cons.mp hc
    have hrest := ih hcs (Nat.le_trans (longestRun_tail _ c cs) hs)
    by_cases hn : c = '\n'
    · subst hn
      rw [List.cons_append, readLiteralLines.eq_2, hrest]
      rfl
    · have hplain : isPlain c = true := by simpa [isControl, hn] using hcontrol
      have hrow : ∀ n, List.replicate n '\'' <+: c :: cs → n ≤ 2 := by
        intro n h
        have hn := @longestRun_row _ _ 0 n h
        omega
      have hend := tripleEnd_body hrow hr
      rw [List.cons_append] at hend ⊢
      rw [readLiteralLines.eq_4 _ _ hn (fun _ h _ => (plain_ne_break hplain).2 h), hend]
      cases (c :: cs).all (· == '\'') with
      | true => rfl
      | false => simp [hplain, hrest]

end Lines

section Forms
variable {cs rest : List Char}

theorem form_literal (h : form cs = .literal) :
    (∀ c ∈ cs, isPlain c = true) ∧ '\'' ∉ cs ∧ cs ≠ [] := by
  have hne : cs ≠ [] := by
    rintro rfl
    cases h
  unfold form at h
  dsimp only at h
  split_ifs at h with h1 h2 h3 h4 h5
  simp only [Bool.and_eq_true, Bool.not_eq_true', beq_iff_eq, List.any_eq_false,
    List.contains_eq_mem, decide_eq_false_iff_not] at h2
  obtain ⟨⟨hcontrols, hsingles⟩, hbreaks⟩ := h2
  refine ⟨fun c hc => ?_, fun hm => ?_, hne⟩
  · have hn : c ≠ '\n' := fun he => hbreaks (he ▸ hc)
    simpa [isControl, hn] using hcontrols c hc
  · exact absurd hsingles (Nat.ne_of_gt (longestRun_pos hm))

theorem form_literalLines (h : form cs = .literalLines) :
    (∀ c ∈ cs, isControl c = false) ∧ longestRun '\'' 0 cs ≤ 2 := by
  unfold form at h
  dsimp only at h
  split_ifs at h with h1 h2 h3 h4 h5
  simp only [Bool.and_eq_true, Bool.not_eq_true', List.any_eq_false, decide_eq_true_eq] at h4
  exact ⟨fun c hc => Bool.eq_false_iff.mpr (h4.1 c hc), h4.2⟩

theorem trimNewline_of_head {cs : List Char} (h : ∀ c ∈ cs.head?, c ≠ '\n' ∧ c ≠ '\r') :
    trimNewline cs = cs := by
  match cs with
  | [] => rfl
  | c :: cs =>
    obtain ⟨hn, hreturn⟩ := h c rfl
    have hnone : newline (c :: cs) = none := by
      unfold newline
      split
      · rename_i he
        exact absurd (List.cons.inj he).1 hn
      · rename_i he
        exact absurd (List.cons.inj he).1 hreturn
      · rfl
    rw [trimNewline, hnone]
    rfl

/-- What is between the opening quotes of several lines and the text: a line break, if the text has
one itself. It is dropped. -/
def opening (cs : List Char) : List Char := if cs.contains '\n' then ['\n'] else []

theorem trimNewline_opening (cs body : List Char)
    (h : cs.contains '\n' = false → ∀ c ∈ (body ++ rest).head?, c ≠ '\n' ∧ c ≠ '\r') :
    trimNewline (opening cs ++ body ++ rest) = body ++ rest := by
  unfold opening
  cases hbreaks : cs.contains '\n' with
  | true => rfl
  | false => exact trimNewline_of_head (h hbreaks)

theorem escapeBody_head (hn : '\n' ∉ cs) :
    ∀ c ∈ (escapeBody true 0 cs ++ '"' :: rest).head?, c ≠ '\n' ∧ c ≠ '\r' := by
  intro d hd
  cases cs with
  | nil =>
    obtain rfl := Option.some.inj hd
    decide
  | cons c cs =>
    have hc : c ≠ '\n' := fun he => hn (he ▸ List.mem_cons_self)
    unfold escapeBody at hd
    split at hd
    · rename_i hq
      obtain rfl := Option.some.inj hd
      rw [hq]
      decide
    · rename_i hq
      obtain ⟨d', e, hpiece, -, hbreak⟩ := (escaped_shows true hq).starts
      rw [hpiece] at hd
      obtain rfl := Option.some.inj hd
      exact hbreak hc

theorem readString_basic (cs : List Char) (hr : rest.head? ≠ some '"') :
    readString ('"' :: (escapeBody false 0 cs ++ '"' :: rest)) = some (String.ofList cs, rest) := by
  have hone : ∀ tail, escapeBody false 0 cs ++ '"' :: rest = '"' :: '"' :: tail → False := by
    intro tail he
    cases cs with
    | nil =>
      rw [escapeBody, List.nil_append] at he
      exact hr (by rw [(List.cons.inj he).2]; rfl)
    | cons c cs =>
      unfold escapeBody at he
      split at he
      · simp at he
      · rename_i hq
        obtain ⟨d, e, hpiece, hd, -⟩ := (escaped_shows false hq).starts
        rw [hpiece] at he
        exact hd (List.cons.inj he).1
  rw [readString.eq_2 _ hone, readBasic_escapeBody]
  rfl

theorem readString_literal (hf : form cs = .literal) :
    readString ('\'' :: (cs ++ '\'' :: rest)) = some (String.ofList cs, rest) := by
  obtain ⟨hp, hq, hne⟩ := form_literal hf
  have hone : ∀ tail, cs ++ '\'' :: rest = '\'' :: '\'' :: tail → False := by
    intro tail he
    obtain ⟨c, cs', rfl⟩ := List.exists_cons_of_ne_nil hne
    exact hq (List.mem_cons.mpr (.inl (List.cons.inj he).1.symm))
  rw [readString.eq_4 _ hone, readLiteral_verbatim hp hq]
  rfl

theorem readString_basicLines (cs : List Char) (hr : rest.head? ≠ some '"') :
    readString ('"' :: '"' :: '"' ::
      (opening cs ++ escapeBody true 0 cs ++ '"' :: '"' :: '"' :: rest)) =
        some (String.ofList cs, rest) := by
  have hhead : cs.contains '\n' = false → ∀ c ∈ (escapeBody true 0 cs ++
      '"' :: '"' :: '"' :: rest).head?, c ≠ '\n' ∧ c ≠ '\r' := fun hn =>
    escapeBody_head (by simpa using hn)
  rw [readString.eq_1, trimNewline_opening cs _ hhead, readBasicLines_escapeBody (Nat.zero_le 2) hr]
  rfl

theorem readString_literalLines (hf : form cs = .literalLines) (hr : rest.head? ≠ some '\'') :
    readString ('\'' :: '\'' :: '\'' :: (opening cs ++ cs ++ '\'' :: '\'' :: '\'' :: rest)) =
      some (String.ofList cs, rest) := by
  obtain ⟨hc, hs⟩ := form_literalLines hf
  have hhead : cs.contains '\n' = false → ∀ c ∈ (cs ++ '\'' :: '\'' :: '\'' :: rest).head?,
      c ≠ '\n' ∧ c ≠ '\r' := by
    intro hn c hm
    cases cs with
    | nil =>
      obtain rfl := Option.some.inj hm
      decide
    | cons d cs =>
      obtain rfl := Option.some.inj hm
      have hne : d ≠ '\n' := fun he => by simp [he] at hn
      exact plain_ne_break (by simpa [isControl, hne] using hc d List.mem_cons_self)
  rw [readString.eq_3, trimNewline_opening cs _ hhead, readLiteralLines_verbatim hc hs hr]
  rfl

/-- A written string is read back in front of anything but quotes. -/
theorem readString_writeString (s : String) (hd : rest.head? ≠ some '"')
    (hs : rest.head? ≠ some '\'') : readString ((writeString s).toList ++ rest) = some (s, rest) := by
  have hs' : String.ofList s.toList = s := String.ofList_toList
  unfold writeString
  dsimp only
  rw [String.toList_ofList]
  cases hform : form s.toList with
  | basic =>
    have hread := readString_basic s.toList hd
    rw [hs'] at hread
    simpa [Form.delimiter, Form.isLines, Form.isLiteral] using hread
  | literal =>
    have hread : readString ('\'' :: (s.toList ++ '\'' :: rest)) = _ := readString_literal hform
    rw [hs'] at hread
    simpa [Form.delimiter, Form.isLines, Form.isLiteral] using hread
  | basicLines =>
    have hread := readString_basicLines s.toList hd
    rw [hs'] at hread
    simpa [Form.delimiter, Form.isLines, Form.isLiteral, opening] using hread
  | literalLines =>
    have hread := readString_literalLines hform hs
    rw [hs'] at hread
    simpa [Form.delimiter, Form.isLines, Form.isLiteral, opening] using hread

end Forms
end SessionAttributes.Toml
