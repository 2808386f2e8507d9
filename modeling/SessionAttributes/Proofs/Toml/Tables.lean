import SessionAttributes.Proofs.Toml.Lines

namespace SessionAttributes.Toml

/-- A document around the table at a path: what changes the table changes the document just there. -/
def Places (here : List String) (frame : Entries → Entries) : Prop :=
  ∀ (origin : Origin) (change : Origin → Entries → Option Entries) (inner inner' : Entries),
    change .defined inner = some inner' →
      Entries.alterAt false change here origin (frame inner) = some (frame inner')

section Places
variable {name : String} {entries : Entries} {here : List String} {frame : Entries → Entries}

theorem lookup_last (h : entries.lookup name = none) (v : Toml) :
    (entries ++ [(name, v)]).lookup name = some v := by
  rw [List.lookup_append, h]
  simp

theorem replace_last (h : entries.lookup name = none) (v v' : Toml) :
    Entries.replace name v' (entries ++ [(name, v)]) = entries ++ [(name, v')] := by
  have hne : ∀ e ∈ entries, e.1 ≠ name := fun e he hn =>
    absurd (hn ▸ (List.lookup_eq_none_iff.mp h) e he) (by simp)
  have hkept : entries.map (fun e => if e.1 = name then (name, v') else e) = entries := by
    rw [List.map_congr_left fun e he => if_neg (hne e he), List.map_id']
  unfold Entries.replace
  rw [List.map_append, hkept, List.map_cons, if_pos rfl, List.map_nil]

/-- The last table of a document. -/
theorem places_last (h : entries.lookup name = none) :
    Places [name] fun inner => entries ++ [(name, .table .defined inner)] := by
  intro origin change inner inner' hc
  unfold Entries.alterAt
  simp [lookup_last h, Entries.alterAt, hc, replace_last h]

/-- A table in the last one of a document. -/
theorem Places.under (hp : Places here frame) (h : entries.lookup name = none)
    (origin : Origin) :
    Places (name :: here) fun inner => entries ++ [(name, .table origin (frame inner))] := by
  intro _ change inner inner' hc
  unfold Entries.alterAt
  simp [lookup_last h, hp origin change inner inner' hc, replace_last h]

theorem Places.assign (hp : Places here frame) {inner : Entries} (h : inner.lookup name = none)
    (v : Toml) :
    Draft.take ⟨here, frame inner⟩ (.assign ⟨[], name⟩ v) =
      some ⟨here, frame (inner ++ [(name, v)])⟩ := by
  have hadded : Entries.assign ⟨[], name⟩ v inner = some (inner ++ [(name, v)]) := by
    simp [Entries.assign, Entries.alterAt, h]
  have halter := hp .defined (fun _ found => Entries.assign ⟨[], name⟩ v found) inner _ hadded
  simp [Draft.take, halter]

/-- Entries of different names are all added. -/
theorem Places.assignments (hp : Places here frame) (inner : Entries) {values : Entries}
    (hn : ((inner ++ values).map Prod.fst).Nodup) :
    (Toml.assignments values).foldlM Draft.take ⟨here, frame inner⟩ =
      some ⟨here, frame (inner ++ values)⟩ := by
  induction values generalizing inner with
  | nil =>
    rw [List.append_nil]
    rfl
  | cons e values ih =>
    have hnew : inner.lookup e.1 = none := by
      rw [List.map_append] at hn
      have hapart := (List.nodup_append.mp hn).2.2
      refine List.lookup_eq_none_iff.mpr fun x hx => bne_iff_ne.mpr fun he => ?_
      exact hapart x.1 (List.mem_map_of_mem hx) e.1 List.mem_cons_self he.symm
    have hrest := ih (inner ++ [e]) (by rwa [List.append_assoc])
    rw [List.append_assoc] at hrest
    change (do
      let d ← Draft.take ⟨here, frame inner⟩ (.assign ⟨[], e.1⟩ e.2)
      (Toml.assignments values).foldlM Draft.take d) = _
    rw [hp.assign hnew]
    exact hrest

theorem keyOf_path (hne : here ≠ []) : (keyOf here).path ++ [(keyOf here).name] = here := by
  have hlast : here.getLast?.getD "" = here.getLast hne := by
    rw [List.getLast?_eq_some_getLast hne, Option.getD_some]
  unfold keyOf
  rw [hlast]
  exact List.dropLast_append_getLast hne

/-- A table that a header opens and its entries fill. -/
theorem Places.table (hp : Places here frame) (hne : here ≠ []) {d : Draft} {values : Entries}
    (ho : Entries.openTable (keyOf here) d.entries = some (frame []))
    (hn : (values.map Prod.fst).Nodup) :
    (tableLines here values).foldlM Draft.take d = some ⟨here, frame values⟩ := by
  have htake : d.take (.header (keyOf here)) = some ⟨here, frame []⟩ := by
    simp [Draft.take, ho, keyOf_path hne]
  rw [tableLines, List.foldlM_cons, htake]
  exact hp.assignments [] hn

end Places

/-- Lines after others go on with what those made. -/
theorem foldlM_after {before after : List Line} {d d' : Draft}
    (h : before.foldlM Draft.take d = some d') :
    (before ++ after).foldlM Draft.take d = after.foldlM Draft.take d' := by
  rw [List.foldlM_append, h]
  rfl

theorem read_of_reads {text : String} {lines : List Line} {d : Draft} (h : Reads text.toList lines)
    (hm : ∀ tail, text.toList ≠ '\uFEFF' :: tail)
    (hd : lines.foldlM Draft.take ⟨[], []⟩ = some d) : read text = some d.entries := by
  have hmark : dropMark text.toList = text.toList := dropMark.eq_2 _ hm
  have hlines := h (text.toList.length + 1) (Nat.lt_succ_self _)
  unfold read
  simp [hmark, hlines, hd]

end SessionAttributes.Toml
