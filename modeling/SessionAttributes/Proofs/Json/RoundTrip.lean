import SessionAttributes.Frame
import SessionAttributes.Proofs.Json.Scanning

namespace SessionAttributes

namespace Json

/-- A member after all others goes to the end. -/
theorem insertMember_last {key : String} {done : List (String × Json)}
    (h : ∀ e ∈ done, e.1 < key) (value : Json) :
    insertMember key value done = done ++ [(key, value)] := by
  induction done with
  | nil => rfl
  | cons e done ih =>
    obtain ⟨k, v⟩ := e
    have hlt : k < key := h (k, v) List.mem_cons_self
    have hne : key ≠ k := fun he => String.lt_irrefl k (he ▸ hlt)
    rw [insertMember, if_neg (String.lt_asymm hlt), if_neg hne,
      ih fun e he => h e (List.mem_cons_of_mem _ he), List.cons_append]

namespace Reader

variable {stack : List Open} {rest : List Token}

/-- What the reader makes of a value inside some containers: it goes on with `next`, unless the
value opens more containers than are left. -/
def within (outer depth : Nat) (next : Except Fault Json) : Except Fault Json :=
  if outer + depth ≤ depthLimit then next else .error .tooDeep

theorem within_max (outer d d' : Nat) (next : Except Fault Json) :
    within outer (max d d') next = within outer d (within outer d' next) := by
  unfold within
  split_ifs <;> first | rfl | omega

theorem within_zero {outer : Nat} (h : outer ≤ depthLimit) (next : Except Fault Json) :
    within outer 0 next = next := if_pos h

theorem run_next {r next : Reader} {token : Token} (h : r.step token = .ok next)
    (rest : List Token) : r.run (token :: rest) = next.run rest := by
  simp only [run, h]

/-- The start of an item is the start of a value. -/
theorem run_item (v : Json) (first : Bool) (stack : List Open) (rest : List Token) :
    run ⟨stack, .item first⟩ (spell v ++ rest) = run ⟨stack, .value⟩ (spell v ++ rest) := by
  cases v <;> rfl

/-- Entering a container takes one level. -/
theorem run_enter {token : Token} {container : Open} {stage : Stage}
    (hs : stack.length ≤ depthLimit)
    (henter : takeValue stack token = enter container stage stack) {depth : Nat}
    {next : Except Fault Json}
    (hrun : stack.length < depthLimit →
      run ⟨container :: stack, stage⟩ rest = within (stack.length + 1) depth next) :
    run ⟨stack, .value⟩ (token :: rest) = within stack.length (depth + 1) next := by
  have hstep : step ⟨stack, .value⟩ token = enter container stage stack := henter
  unfold enter at hstep
  by_cases hlt : stack.length < depthLimit
  · rw [if_pos hlt] at hstep
    rw [run_next hstep, hrun hlt, within, within, Nat.add_right_comm, Nat.add_assoc]
  · rw [if_neg hlt] at hstep
    simp only [run, hstep]
    rw [within, if_neg (by omega)]

mutual

/-- The reader finds a value from its tokens. -/
theorem run_value : ∀ (v : Json), v.Canonical → ∀ stack, stack.length ≤ depthLimit →
    ∀ rest, run ⟨stack, .value⟩ (spell v ++ rest) =
      within stack.length v.depth (run (place v stack) rest)
  | .null, _, _, hs, _ => (within_zero hs _).symm
  | .bool _, _, _, hs, _ => (within_zero hs _).symm
  | .number _, _, _, hs, _ => (within_zero hs _).symm
  | .string _, _, _, hs, _ => (within_zero hs _).symm
  | .array xs, h, _, hs, rest => run_enter hs rfl fun hlt => run_items xs h hlt rest
  | .object ms, h, _, hs, rest => run_enter hs rfl fun hlt => run_members ms h.2 h.1 hlt rest

theorem run_items : ∀ (xs : List Json), CanonicalItems xs → ∀ {stack : List Open},
    stack.length < depthLimit → ∀ rest,
      run ⟨.array [] :: stack, .item true⟩ (spellItems xs ++ rest) =
        within (stack.length + 1) (depthItems xs) (run (place (.array xs) stack) rest)
  | [], _, _, hs, _ => (within_zero hs _).symm
  | x :: xs, h, stack, hs, rest => by
    have hx := run_value x h.1 (.array [] :: stack) hs (spellMoreItems xs ++ rest)
    have hxs := run_moreItems xs h.2 [x] hs rest
    rw [spellItems, List.append_assoc, run_item, hx, depthItems, within_max]
    exact congrArg (within _ _) hxs

theorem run_moreItems : ∀ (xs : List Json), CanonicalItems xs → ∀ (done : List Json)
    {stack : List Open}, stack.length < depthLimit → ∀ rest,
      run ⟨.array done :: stack, .more⟩ (spellMoreItems xs ++ rest) =
        within (stack.length + 1) (depthItems xs)
          (run (place (.array (done.reverse ++ xs)) stack) rest)
  | [], _, done, _, hs, rest => by
    rw [List.append_nil]
    exact (within_zero hs _).symm
  | x :: xs, h, done, stack, hs, rest => by
    have hcomma : step ⟨.array done :: stack, .more⟩ .comma =
        .ok ⟨.array done :: stack, .item false⟩ := rfl
    have hx := run_value x h.1 (.array done :: stack) hs (spellMoreItems xs ++ rest)
    have hxs := run_moreItems xs h.2 (x :: done) hs rest
    rw [List.reverse_cons, List.append_assoc, List.singleton_append] at hxs
    simp only [spellMoreItems, List.cons_append, List.append_assoc]
    rw [run_next hcomma, run_item, hx, depthItems, within_max]
    exact congrArg (within _ _) hxs

theorem run_members : ∀ (ms : List (String × Json)), CanonicalMembers ms → Ordered ms →
    ∀ {stack : List Open}, stack.length < depthLimit → ∀ rest,
      run ⟨.object [] "" :: stack, .key true⟩ (spellMembers ms ++ rest) =
        within (stack.length + 1) (depthMembers ms) (run (place (.object ms) stack) rest)
  | [], _, _, _, hs, _ => (within_zero hs _).symm
  | (k, x) :: ms, h, ho, stack, hs, rest => by
    have hkey : step ⟨.object [] "" :: stack, .key true⟩ (.text k) =
        .ok ⟨.object [] "" :: stack, .colon k⟩ := rfl
    have hcolon : step ⟨.object [] "" :: stack, .colon k⟩ .colon =
        .ok ⟨.object [] k :: stack, .value⟩ := rfl
    have hx := run_value x h.1 (.object [] k :: stack) hs (spellMoreMembers ms ++ rest)
    have hms := run_moreMembers ms h.2 [(k, x)] k ho hs rest
    simp only [spellMembers, List.cons_append, List.append_assoc]
    rw [run_next hkey, run_next hcolon, hx, depthMembers, within_max]
    exact congrArg (within _ _) hms

theorem run_moreMembers : ∀ (ms : List (String × Json)), CanonicalMembers ms →
    ∀ (done : List (String × Json)) (key : String), Ordered (done ++ ms) →
      ∀ {stack : List Open}, stack.length < depthLimit → ∀ rest,
        run ⟨.object done key :: stack, .more⟩ (spellMoreMembers ms ++ rest) =
          within (stack.length + 1) (depthMembers ms)
            (run (place (.object (done ++ ms)) stack) rest)
  | [], _, done, _, _, _, hs, rest => by
    rw [List.append_nil]
    exact (within_zero hs _).symm
  | (k, x) :: ms, h, done, key, ho, stack, hs, rest => by
    have hcomma : step ⟨.object done key :: stack, .more⟩ .comma =
        .ok ⟨.object done key :: stack, .key false⟩ := rfl
    have hkey : step ⟨.object done key :: stack, .key false⟩ (.text k) =
        .ok ⟨.object done key :: stack, .colon k⟩ := rfl
    have hcolon : step ⟨.object done key :: stack, .colon k⟩ .colon =
        .ok ⟨.object done k :: stack, .value⟩ := rfl
    have hlast : insertMember k x done = done ++ [(k, x)] :=
      insertMember_last (fun e he => (List.pairwise_append.mp ho).2.2 e he _ List.mem_cons_self) x
    have hx := run_value x h.1 (.object done k :: stack) hs (spellMoreMembers ms ++ rest)
    have hplace : place x (.object done k :: stack) =
        ⟨.object (done ++ [(k, x)]) k :: stack, .more⟩ := by rw [place, hlast]
    rw [List.append_cons] at ho
    have hms := run_moreMembers ms h.2 (done ++ [(k, x)]) k ho hs rest
    rw [List.append_assoc, List.singleton_append] at hms
    simp only [spellMoreMembers, List.cons_append, List.append_assoc]
    rw [run_next hcomma, run_next hkey, run_next hcolon, hx, hplace, depthMembers, within_max]
    exact congrArg (within _ _) hms

end

end Reader

section Depth

theorem depthItems_append (xs ys : List Json) :
    depthItems (xs ++ ys) = max (depthItems xs) (depthItems ys) := by
  induction xs with
  | nil => simp [depthItems]
  | cons x xs ih => simp only [List.cons_append, depthItems, ih, Nat.max_assoc]

theorem depthItems_reverse (xs : List Json) : depthItems xs.reverse = depthItems xs := by
  induction xs with
  | nil => rfl
  | cons x xs ih =>
    simp only [List.reverse_cons, depthItems_append, ih, depthItems]
    omega

theorem depthMembers_insertMember (key : String) (value : Json) (members : List (String × Json)) :
    depthMembers (insertMember key value members) ≤ max value.depth (depthMembers members) := by
  induction members with
  | nil => simp [insertMember, depthMembers]
  | cons e rest ih =>
    obtain ⟨k, v⟩ := e
    unfold insertMember
    split_ifs <;> simp only [depthMembers] <;> omega

namespace Reader

/-- How many containers stand inside one another in what an open container holds so far. -/
def held : Open → Nat
  | .array items => depthItems items
  | .object members _ => depthMembers members

/-- What an open container holds fits into the levels that the containers around it leave. -/
def Fits : List Open → Prop
  | [] => True
  | container :: rest => rest.length + 1 + held container ≤ depthLimit ∧ Fits rest

structure Shallow (r : Reader) : Prop where
  fits : Fits r.stack
  complete : ∀ v, r.stage = .complete v → v.depth ≤ depthLimit

theorem shallow_place {v : Json} {stack : List Open} (h : Fits stack)
    (hv : stack.length + v.depth ≤ depthLimit) : (place v stack).Shallow := by
  match stack, h with
  | [], _ =>
    refine ⟨trivial, ?_⟩
    rintro _ ⟨⟩
    exact (Nat.zero_add v.depth).symm.trans_le hv
  | .array items :: rest, ⟨hc, hrest⟩ =>
    refine ⟨⟨?_, hrest⟩, nofun⟩
    simp only [List.length_cons, held, depthItems] at hv hc ⊢
    omega
  | .object members key :: rest, ⟨hc, hrest⟩ =>
    refine ⟨⟨?_, hrest⟩, nofun⟩
    have hinsert := depthMembers_insertMember key v members
    simp only [List.length_cons, held] at hv hc ⊢
    omega

theorem shallow_close {stack : List Open} (h : Fits stack) : (close stack).Shallow := by
  match stack, h with
  | [], _ => exact ⟨trivial, nofun⟩
  | .array items :: rest, ⟨hc, hrest⟩ =>
    refine shallow_place hrest ?_
    simp only [held, depth, depthItems_reverse] at hc ⊢
    omega
  | .object members key :: rest, ⟨hc, hrest⟩ =>
    refine shallow_place hrest ?_
    simp only [held, depth] at hc ⊢
    omega

theorem Fits.length {stack : List Open} (h : Fits stack) : stack.length ≤ depthLimit := by
  match stack, h with
  | [], _ => exact Nat.zero_le _
  | container :: rest, ⟨hc, _⟩ => exact (Nat.le_add_right _ (held container)).trans hc

theorem fits_setKey {stack : List Open} (key : String) (h : Fits stack) :
    Fits (setKey key stack) := by
  match stack, h with
  | [], h => exact h
  | .array _ :: _, h => exact h
  | .object _ _ :: _, h => exact h

theorem shallow_enter {container : Open} {stage : Stage} {stack : List Open} {r : Reader}
    (h : Fits stack) (hc : held container = 0) (hs : ∀ v, stage ≠ .complete v)
    (hr : enter container stage stack = .ok r) : r.Shallow := by
  unfold enter at hr
  split at hr
  · rename_i hlt
    cases hr
    refine ⟨⟨?_, h⟩, fun v hv => absurd hv (hs v)⟩
    rw [hc]
    exact hlt
  · cases hr

theorem shallow_takeValue {stack : List Open} {token : Token} {r : Reader} (h : Fits stack)
    (hr : takeValue stack token = .ok r) : r.Shallow := by
  cases token with
  | openArray => exact shallow_enter h rfl (by rintro _ ⟨⟩) hr
  | openObject => exact shallow_enter h rfl (by rintro _ ⟨⟩) hr
  | null | bool | number | text =>
    cases hr
    exact shallow_place h h.length
  | _ => cases hr

theorem shallow_takeMore {stack : List Open} {token : Token} {r : Reader} (h : Fits stack)
    (hr : takeMore stack token = .ok r) : r.Shallow := by
  unfold takeMore at hr
  split at hr <;> cases hr
  · exact ⟨h, nofun⟩
  · exact shallow_close h
  · exact ⟨h, nofun⟩
  · exact shallow_close h

theorem shallow_takeKey {stack : List Open} {first : Bool} {token : Token} {r : Reader}
    (h : Fits stack) (hr : takeKey stack first token = .ok r) : r.Shallow := by
  unfold takeKey at hr
  split at hr
  · cases hr
    exact ⟨h, nofun⟩
  · split at hr <;> cases hr
    exact shallow_close h
  · cases hr
  · cases hr

/-- One token leaves nothing that is nested too deep. -/
theorem Shallow.step {r r' : Reader} {token : Token} (h : r.Shallow)
    (hr : r.step token = .ok r') : r'.Shallow := by
  unfold Reader.step at hr
  split at hr
  · exact shallow_takeValue h.fits hr
  · split at hr <;> cases hr
    exact shallow_close h.fits
  · exact shallow_takeValue h.fits hr
  · exact shallow_takeKey h.fits hr
  · cases hr
    exact ⟨fits_setKey _ h.fits, nofun⟩
  · cases hr
  · exact shallow_takeMore h.fits hr
  · cases hr

theorem Shallow.run {r : Reader} {rest : List Token} {v : Json} (h : r.Shallow)
    (hr : r.run rest = .ok v) : v.depth ≤ depthLimit := by
  induction rest generalizing r with
  | nil =>
    unfold Reader.run finish at hr
    split at hr
    · rename_i hstage
      cases hr
      exact h.complete _ hstage
    all_goals first | cases hr | (split at hr <;> cases hr)
  | cons token rest ih =>
    simp only [Reader.run] at hr
    split at hr
    · rename_i next hnext
      exact ih (h.step hnext) hr
    · cases hr

end Reader

theorem depth_nest (v : Json) (levels : Nat) : (nest v levels).depth = v.depth + levels := by
  induction levels with
  | zero => rfl
  | succ levels ih =>
    change depthItems [nest v levels] + 1 = _
    rw [depthItems, depthItems, ih, Nat.max_zero, Nat.add_assoc]

theorem canonical_nest {v : Json} (h : v.Canonical) (levels : Nat) :
    (nest v levels).Canonical := by
  induction levels with
  | zero => exact h
  | succ levels ih => exact ⟨ih, trivial⟩

/-- Whatever text a value was read from, it is not nested too deep. -/
theorem read_depth {bytes : Bytes} {v : Json} (h : read bytes = .ok v) : v.depth ≤ depthLimit := by
  have hinitial : Reader.initial.Shallow := ⟨trivial, nofun⟩
  unfold read at h
  cases hr : Reader.initial.run (tokens bytes) with
  | error fault =>
    rw [hr] at h
    cases h
  | ok x =>
    rw [hr] at h
    cases h
    exact hinitial.run hr

end Depth

section Lines

theorem newline_repr (n : Nat) : 0x0A ∉ Bytes.ofString n.repr := by
  induction n using Nat.strongRecOn with
  | ind n ih =>
    have hdigit : ∀ d : Fin 10, 0x0A ∉ [UInt8.ofNat (0x30 + d.val)] := by decide
    by_cases hlt : n < 10
    · rw [Nat.repr_of_lt hlt, Bytes.ofString_digit hlt]
      exact hdigit ⟨n, hlt⟩
    · have hmod : n % 10 < 10 := Nat.mod_lt n (by decide)
      rw [Nat.repr_of_ge (Nat.not_lt.mp hlt), Bytes.ofString_append, Bytes.ofString_digit hmod]
      exact List.not_mem_append (ih (n / 10) (by omega)) (hdigit ⟨n % 10, hmod⟩)

theorem newline_number {n : Number} (h : (Json.number n).Canonical) :
    0x0A ∉ Bytes.ofString n.text := by
  cases n with
  | real x => exact h.elim
  | natural n => exact newline_repr n.val
  | negative n =>
    change 0x0A ∉ Bytes.ofString ("-" ++ (n.val + 1).repr)
    rw [Bytes.ofString_append]
    exact List.not_mem_append (by decide) (newline_repr _)

theorem newline_escapeByte (b : UInt8) : 0x0A ∉ escapeByte b := by
  have hmark : ∀ {mark}, shortEscape b = some mark → mark ≠ 0x0A := by
    intro mark hm
    unfold shortEscape at hm
    repeat' split at hm
    all_goals cases hm
    all_goals decide
  have hhex : ∀ k : Fin 16, 0x0A ≠ hexDigit k.val := by decide
  unfold escapeByte
  cases hs : shortEscape b with
  | some mark => simpa using (hmark hs).symm
  | none =>
    dsimp only
    split
    · rename_i hb
      have hlt : b.toNat < 0x20 := hb
      have hhigh := hhex ⟨b.toNat / 16, by omega⟩
      have hlow := hhex ⟨b.toNat % 16, by omega⟩
      simp [hhigh, hlow]
    · rename_i hb
      have hne : b ≠ 0x0A := by
        rintro rfl
        exact hb (by decide)
      simpa using hne.symm

theorem newline_writeString (s : String) : 0x0A ∉ writeString s := by
  unfold writeString
  simp only [List.cons_append, List.mem_cons, List.mem_append, List.mem_flatMap,
    not_or, not_exists, not_and]
  exact ⟨by decide, fun b _ => newline_escapeByte b, by decide⟩

mutual

/-- A written value is one line. -/
theorem newline_write : ∀ (v : Json), v.Canonical → 0x0A ∉ v.write
  | .null, _ => by decide
  | .bool true, _ => by decide
  | .bool false, _ => by decide
  | .number _, h => newline_number h
  | .string s, _ => newline_writeString s
  | .array xs, h => by simp [write, newline_items xs h]
  | .object ms, h => by simp [write, newline_members ms h.2]

theorem newline_items : ∀ (xs : List Json), CanonicalItems xs → 0x0A ∉ writeItems xs
  | [], _ => by decide
  | x :: xs, h => by simp [writeItems, newline_write x h.1, newline_moreItems xs h.2]

theorem newline_moreItems : ∀ (xs : List Json), CanonicalItems xs → 0x0A ∉ writeMoreItems xs
  | [], _ => by decide
  | x :: xs, h => by simp [writeMoreItems, newline_write x h.1, newline_moreItems xs h.2]

theorem newline_members : ∀ (ms : List (String × Json)), CanonicalMembers ms →
    0x0A ∉ writeMembers ms
  | [], _ => by decide
  | (k, x) :: ms, h => by
    simp [writeMembers, newline_writeString k, newline_write x h.1, newline_moreMembers ms h.2]

theorem newline_moreMembers : ∀ (ms : List (String × Json)), CanonicalMembers ms →
    0x0A ∉ writeMoreMembers ms
  | [], _ => by decide
  | (k, x) :: ms, h => by
    simp [writeMoreMembers, newline_writeString k, newline_write x h.1, newline_moreMembers ms h.2]

end

/-- A text of one line is refused in this line. -/
theorem refuse_line {bytes : Bytes} (h : 0x0A ∉ bytes) (taken : Nat) (fault : Fault) :
    ∃ column, refuse bytes taken fault = ⟨fault, 1, column⟩ := by
  refine ⟨_, congrArg (Refusal.mk fault) (congrArg (Place.mk · _) ?_)⟩
  exact congrArg (· + 1) (List.count_eq_zero.mpr fun hm => h (List.mem_of_mem_take hm))

end Lines

/-- What the reader makes of a written value: all levels are left for it. -/
theorem run_write {v : Json} (h : v.Canonical) :
    Reader.initial.run (tokens v.write) =
      if v.depth ≤ depthLimit then .ok v else .error .tooDeep := by
  have htokens : tokens v.write = spell v ++ [] := by
    have hscan := tokens_write v h [] trivial
    rw [List.append_nil] at hscan
    exact hscan
  rw [htokens]
  refine (Reader.run_value v h [] (Nat.zero_le _) []).trans ?_
  simp only [Reader.within, List.length_nil, Nat.zero_add]
  rfl

/-- A written value is read back, unless it is nested too deep. -/
theorem read_write {v : Json} (h : v.Canonical) (hd : v.depth ≤ depthLimit) :
    read v.write = .ok v := by
  rw [read, run_write h, if_pos hd]
  rfl

theorem read_deep {v : Json} (h : v.Canonical) (hd : depthLimit < v.depth) :
    ∃ column, read v.write = .error ⟨.tooDeep, 1, column⟩ := by
  rw [read, run_write h, if_neg (Nat.not_le_of_lt hd)]
  obtain ⟨column, hrefuse⟩ := refuse_line (newline_write v h)
    (Reader.initial.taken (tokens v.write)) .tooDeep
  exact ⟨column, congrArg Except.error hrefuse⟩

mutual

/-- A canonical value is equal to itself and to no other value. -/
theorem equal_iff : ∀ (v : Json), v.Canonical → ∀ x, equal x v = true ↔ x = v
  | .null, _, x => by cases x <;> simp [equal]
  | .bool _, _, x => by cases x <;> simp [equal]
  | .string _, _, x => by cases x <;> simp [equal]
  | .number (.real _), h, _ => h.elim
  | .number (.natural _), _, x => by
    cases x with
    | number n => cases n <;> simp [equal, Number.equal]
    | _ => simp [equal]
  | .number (.negative _), _, x => by
    cases x with
    | number n => cases n <;> simp [equal, Number.equal]
    | _ => simp [equal]
  | .array ys, h, x => by
    cases x with
    | array xs => simp [equal, equalItems_iff ys h xs]
    | _ => simp [equal]
  | .object ns, h, x => by
    cases x with
    | object ms => simp [equal, equalMembers_iff ns h.2 ms]
    | _ => simp [equal]

theorem equalItems_iff : ∀ (ys : List Json), CanonicalItems ys → ∀ xs,
    equalItems xs ys = true ↔ xs = ys
  | [], _, xs => by cases xs <;> simp [equalItems]
  | y :: ys, h, xs => by
    cases xs with
    | nil => simp [equalItems]
    | cons x xs => simp [equalItems, equal_iff y h.1 x, equalItems_iff ys h.2 xs]

theorem equalMembers_iff : ∀ (ns : List (String × Json)), CanonicalMembers ns → ∀ ms,
    equalMembers ms ns = true ↔ ms = ns
  | [], _, ms => by cases ms <;> simp [equalMembers]
  | (l, y) :: ns, h, ms => by
    cases ms with
    | nil => simp [equalMembers]
    | cons e ms =>
      simp [equalMembers, Prod.ext_iff, equal_iff y h.1 e.2, equalMembers_iff ns h.2 ms]

end

end Json

namespace Bytes

theorem littleEndian_ofLittleEndian (count n : Nat) :
    littleEndian (ofLittleEndian count n) = n % 256 ^ count := by
  induction count generalizing n with
  | zero => exact (Nat.mod_one n).symm
  | succ count ih =>
    rw [ofLittleEndian, littleEndian, ih, Nat.pow_succ', Nat.mod_mul, UInt8.toNat_ofNat']

end Bytes

namespace Frame

theorem length_header (payload : Bytes) : (header payload).length = checksumLength :=
  Bytes.length_ofLittleEndian _ _

theorem stored_header (payload : Bytes) :
    UInt32.ofNat (Bytes.littleEndian (header payload)) = Crc32.checksum payload := by
  rw [header, Bytes.littleEndian_ofLittleEndian]
  exact UInt32.toNat_inj.mp (by simp [checksumLength])

theorem unwrap_append {head payload : Bytes} (h : head.length = checksumLength) :
    unwrap (head ++ payload) =
      let stored := UInt32.ofNat (Bytes.littleEndian head)
      let computed := Crc32.checksum payload
      if stored = computed then .ok payload else .error (.checksum stored computed) := by
  have hlong : ¬ (head ++ payload).length < checksumLength := by
    rw [List.length_append, h]
    exact Nat.not_lt.mpr (Nat.le_add_right _ _)
  simp only [unwrap, if_neg hlong, List.take_left' h, List.drop_left' h]

/-- A frame gives back what was put into it. -/
theorem unwrap_wrap (payload : Bytes) : unwrap (wrap payload) = .ok payload := by
  rw [wrap, unwrap_append (length_header payload)]
  exact if_pos (stored_header payload)

/-- A stored value is read back, unless it is nested too deep. -/
theorem read_write {v : Json} (h : v.Canonical) (hd : v.depth ≤ Json.depthLimit) :
    read (write v) = .ok v := by
  simp only [read, readWith, write, unwrap_wrap, Json.read_write h hd]

theorem read_deep {v : Json} (h : v.Canonical) (hd : Json.depthLimit < v.depth) :
    ∃ column : Nat, read (write v) =
      .error (.decode ("recursion limit exceeded at line 1 column " ++ toString column)) := by
  obtain ⟨column, hrefused⟩ := Json.read_deep h hd
  have htext : (Fault.payload ⟨.tooDeep, 1, column⟩).message =
      "recursion limit exceeded at line 1 column " ++ toString column := by
    change "recursion limit exceeded" ++ " at line " ++ toString 1 ++ " column " ++ _ = _
    rfl
  refine ⟨column, ?_⟩
  simp only [read, readWith, write, unwrap_wrap, hrefused, htext]

theorem read_depth {frame : Bytes} {v : Json} (h : read frame = .ok v) :
    v.depth ≤ Json.depthLimit := by
  unfold read readWith at h
  split at h
  · cases h
  · split at h
    · cases h
    · rename_i hread
      cases h
      exact Json.read_depth hread

/-- Every value of whole numbers can be stored. It comes back as it was, unless more than 127 of its
containers stand inside one another: the reader refuses to open these and tells where they are. -/
theorem marshaller_round_trip {v : Json} (h : v.Canonical) :
    ∃ bytes, marshaller.write v = .ok bytes ∧
      (v.depth ≤ 127 → marshaller.read bytes = .ok v) ∧
      (127 < v.depth → ∃ column : Nat, marshaller.read bytes =
        .error (.decode ("recursion limit exceeded at line 1 column " ++ toString column))) :=
  ⟨write v, rfl, read_write h, read_deep h⟩

/-- An object with signs that have to be escaped, inside so many arrays that it is the innermost of
127 containers, or one more. -/
theorem marshaller_round_trip_deepest :
    let v := Json.object [("\u0000", .number (.negative 0x7fffffffffffffff)), ("é\"", .array [])]
    (Json.nest v 125).depth = 127 ∧ (Json.nest v 126).depth = 128 ∧
    (∃ bytes, marshaller.write (Json.nest v 125) = .ok bytes ∧
      marshaller.read bytes = .ok (Json.nest v 125)) ∧
    (∃ (bytes : Bytes) (column : Nat), marshaller.write (Json.nest v 126) = .ok bytes ∧
      marshaller.read bytes =
        .error (.decode ("recursion limit exceeded at line 1 column " ++ toString column))) := by
  intro v
  have hv : v.Canonical := by
    refine ⟨?_, trivial, trivial, trivial⟩
    exact List.pairwise_pair.mpr (by decide)
  have hmost : (Json.nest v 125).depth = 127 := Json.depth_nest v 125
  have hmore : (Json.nest v 126).depth = 128 := Json.depth_nest v 126
  obtain ⟨bytes, hwrite, hread, -⟩ := marshaller_round_trip (Json.canonical_nest hv 125)
  obtain ⟨bytes', hwrite', -, hrefused⟩ := marshaller_round_trip (Json.canonical_nest hv 126)
  obtain ⟨column, hrefused⟩ := hrefused (by omega)
  exact ⟨hmost, hmore, ⟨bytes, hwrite, hread (by omega)⟩, ⟨bytes', column, hwrite', hrefused⟩⟩

end Frame
end SessionAttributes
