import SessionAttributes.Config
import SessionAttributes.Proofs.Toml.Tables

namespace SessionAttributes.Config

section Entries

def factoryEntries (options : FactoryOptions) : Toml.Entries :=
  [("cascade_workers", .integer options.workers),
    ("cascade_thread_name", .string options.threadName)]

def storeEntries (options : StoreOptions) : Toml.Entries :=
  [("shards", .integer options.shards)] ++
    options.capacity.toList.map (fun n => ("capacity", .integer n)) ++
    [("persistent", .boolean options.persistent)]

def entries (c : Config) : Toml.Entries :=
  [("factory", .table .defined (factoryEntries c.factory)),
    ("stores", .table .passed [
      ("metadata", .table .defined (storeEntries c.stores.metadata)),
      ("names", .table .defined (storeEntries c.stores.names)),
      ("attributes", .table .defined (storeEntries c.stores.attributes))])]

theorem readTomlFactory_entries (options : FactoryOptions) :
    readTomlFactory (.table .defined (factoryEntries options)) = .ok options := rfl

theorem readTomlStore_entries (options : StoreOptions) :
    readTomlStore (.table .defined (storeEntries options)) = .ok options := by
  obtain ⟨shards, capacity, persistent⟩ := options
  cases capacity <;> rfl

/-- The entry of a field whose value is read. -/
theorem readEntries_field {σ α : Type} {fields : List (Toml.Field σ)} {name : String}
    {read : Toml.Typed α} {put : σ → α → σ}
    (hf : (fields.find? fun f => f.name == name) = some (tomlField name read put)) {v : Toml} {a : α}
    (hr : read v = .ok a) (entries : Toml.Entries) (record : σ) :
    Toml.readEntries fields ((name, v) :: entries) record =
      Toml.readEntries fields entries (put record a) := by
  rw [Toml.readEntries, hf]
  simp only [tomlField, hr]
  rfl

theorem readTomlStores_entries (s : StoreSections) (origin : Toml.Origin) :
    readTomlStores (.table origin [
      ("metadata", .table .defined (storeEntries s.metadata)),
      ("names", .table .defined (storeEntries s.names)),
      ("attributes", .table .defined (storeEntries s.attributes))]) = .ok s := by
  unfold readTomlStores Toml.readRecord
  dsimp only
  rw [readEntries_field rfl (readTomlStore_entries _), readEntries_field rfl
    (readTomlStore_entries _), readEntries_field rfl (readTomlStore_entries _)]
  rfl

/-- The table of a configuration is read as the configuration. -/
theorem readToml_entries (c : Config) : readToml (.table .defined c.entries) = .ok c := by
  unfold readToml Toml.readRecord entries
  dsimp only
  rw [readEntries_field rfl (readTomlFactory_entries _),
    readEntries_field rfl (readTomlStores_entries _ _)]
  rfl

end Entries

section Lines

def lines (c : Config) : List Toml.Line :=
  Toml.tableLines ["factory"] (factoryEntries c.factory) ++
    (Toml.tableLines ["stores", "metadata"] (storeEntries c.stores.metadata) ++
    (Toml.tableLines ["stores", "names"] (storeEntries c.stores.names) ++
    Toml.tableLines ["stores", "attributes"] (storeEntries c.stores.attributes)))

theorem storeEntries_nodup (options : StoreOptions) :
    ((storeEntries options).map Prod.fst).Nodup := by
  unfold storeEntries
  cases options.capacity <;> simp

theorem factoryEntries_nodup (options : FactoryOptions) :
    ((factoryEntries options).map Prod.fst).Nodup := by simp [factoryEntries]

theorem factory_lines (options : FactoryOptions) :
    (Toml.tableLines ["factory"] (factoryEntries options)).foldlM Toml.Draft.take ⟨[], []⟩ =
      some ⟨["factory"], [("factory", .table .defined (factoryEntries options))]⟩ :=
  (Toml.places_last (rfl : ([] : Toml.Entries).lookup "factory" = none)).table
    (List.cons_ne_nil _ _) rfl (factoryEntries_nodup options)

/-- The table of a store comes after those of the stores before it. -/
theorem store_lines (d : Toml.Draft) (name : String) (factory stores : Toml.Entries)
    (options : StoreOptions) (h : stores.lookup name = none)
    (ho : Toml.Entries.openTable ⟨["stores"], name⟩ d.entries =
      some [("factory", .table .defined factory),
        ("stores", .table .passed (stores ++ [(name, .table .defined [])]))]) :
    (Toml.tableLines ["stores", name] (storeEntries options)).foldlM Toml.Draft.take d =
      some ⟨["stores", name], [("factory", .table .defined factory),
        ("stores", .table .passed (stores ++ [(name, .table .defined (storeEntries options))]))]⟩ :=
  have hfactory : [("factory", Toml.table .defined factory)].lookup "stores" = none := rfl
  ((Toml.places_last h).under hfactory .passed).table (List.cons_ne_nil _ _) ho
    (storeEntries_nodup options)

/-- The lines make the table of the configuration. -/
theorem lines_entries (c : Config) :
    c.lines.foldlM Toml.Draft.take ⟨[], []⟩ = some ⟨["stores", "attributes"], c.entries⟩ := by
  let factory := factoryEntries c.factory
  let metadata : String × Toml := ("metadata", .table .defined (storeEntries c.stores.metadata))
  let names : String × Toml := ("names", .table .defined (storeEntries c.stores.names))
  have hmetadata := store_lines ⟨["factory"], [("factory", .table .defined factory)]⟩ "metadata"
    factory [] c.stores.metadata rfl rfl
  have hnames := store_lines ⟨["stores", "metadata"], [("factory", .table .defined factory),
    ("stores", .table .passed [metadata])]⟩ "names" factory [metadata] c.stores.names rfl rfl
  have hattributes := store_lines ⟨["stores", "names"], [("factory", .table .defined factory),
    ("stores", .table .passed [metadata, names])]⟩ "attributes" factory [metadata, names]
    c.stores.attributes rfl rfl
  calc c.lines.foldlM Toml.Draft.take ⟨[], []⟩
    _ = _ := Toml.foldlM_after (factory_lines c.factory)
    _ = _ := Toml.foldlM_after hmetadata
    _ = _ := Toml.foldlM_after hnames
    _ = _ := hattributes

end Lines

section Writing

def storeCounts (options : StoreOptions) : List Nat := options.shards :: options.capacity.toList

def counts (c : Config) : List Nat :=
  [[c.factory.workers], storeCounts c.stores.metadata, storeCounts c.stores.names,
    storeCounts c.stores.attributes].flatten

/-- Counts that TOML integers can be: none is greater than `2 ^ 63 - 1`. -/
def Fit (counts : List Nat) : Prop := ∀ n ∈ counts, n ≤ 0x7FFFFFFFFFFFFFFF

instance (counts : List Nat) : Decidable (Fit counts) := inferInstanceAs (Decidable (∀ n ∈ counts, _))

def factoryTexts (options : FactoryOptions) : List (String × String) :=
  [("cascade_workers", toString options.workers),
    ("cascade_thread_name", Toml.writeString options.threadName)]

def storeTexts (options : StoreOptions) : List (String × String) :=
  [("shards", toString options.shards)] ++
    options.capacity.toList.map (fun n => ("capacity", toString n)) ++
    [("persistent", toString options.persistent)]

/-- The text of a configuration, however large its counts are. -/
def text (c : Config) : String :=
  Toml.writeTables [
    Toml.writeTable ["factory"] (factoryTexts c.factory),
    Toml.writeTable ["stores", "metadata"] (storeTexts c.stores.metadata),
    Toml.writeTable ["stores", "names"] (storeTexts c.stores.names),
    Toml.writeTable ["stores", "attributes"] (storeTexts c.stores.attributes)]

def tooLarge : SessionError := .config "out-of-range value for u64 type"

/-- Writing goes on after counts that fit. -/
theorem write_bind {α β : Type} {ns ms : List Nat} {a : α} {b : β} {f : α → Except SessionError β}
    (h : f a = if Fit ms then .ok b else .error tooLarge) :
    ((if Fit ns then .ok a else .error tooLarge) >>= f) =
      if Fit (ns ++ ms) then .ok b else .error tooLarge := by
  have hfit : Fit (ns ++ ms) ↔ Fit ns ∧ Fit ms := List.forall_mem_append
  simp only [hfit]
  by_cases hn : Fit ns
  · rw [if_pos hn]
    simp only [hn, true_and]
    exact h
  · rw [if_neg hn, if_neg fun hboth => hn hboth.1]
    rfl

theorem write_pure {α : Type} (a : α) :
    (pure a : Except SessionError α) = if Fit [] then .ok a else .error tooLarge :=
  (if_pos (List.forall_mem_nil _)).symm

theorem writeCount_eq (n : Nat) :
    writeCount n = if Fit [n] then .ok (toString n) else .error tooLarge := by
  have hfit : Fit [n] ↔ (n : Int) ≤ Toml.greatest := by
    rw [Fit, List.forall_mem_singleton, Toml.greatest]
    omega
  simp only [hfit]
  rfl

theorem writeFactory_eq (options : FactoryOptions) :
    writeFactory options = if Fit [options.workers] then
      .ok (Toml.writeTable ["factory"] (factoryTexts options)) else .error tooLarge := by
  unfold writeFactory
  rw [writeCount_eq]
  exact write_bind (write_pure _)

theorem writeStore_eq (name : String) (options : StoreOptions) :
    writeStore name options = if Fit (storeCounts options) then
      .ok (Toml.writeTable ["stores", name] (storeTexts options)) else .error tooLarge := by
  obtain ⟨shards, capacity, persistent⟩ := options
  unfold writeStore
  rw [writeCount_eq]
  cases capacity with
  | none => exact write_bind (write_pure _)
  | some n =>
    simp only [writeCount_eq]
    exact write_bind (write_bind (write_pure _))

theorem toToml_eq (c : Config) :
    c.toToml = if Fit c.counts then .ok c.text else .error tooLarge := by
  unfold toToml
  simp only [writeFactory_eq, writeStore_eq]
  exact write_bind (write_bind (write_bind (write_bind (write_pure _))))

/-- A count that is too large is the only reason for a configuration to have no text. -/
theorem toToml_error_iff (c : Config) :
    (∃ fault, c.toToml = .error fault) ↔ ∃ n ∈ c.counts, 0x7FFFFFFFFFFFFFFF < n := by
  have hlarge : (∃ n ∈ c.counts, 0x7FFFFFFFFFFFFFFF < n) ↔ ¬ Fit c.counts := by simp [Fit]
  rw [toToml_eq, hlarge]
  by_cases h : Fit c.counts
  · simp [h]
  · simp [h]

theorem fit_of_toToml {c : Config} {text : String} (h : c.toToml = .ok text) :
    Fit c.counts ∧ text = c.text := by
  rw [toToml_eq] at h
  by_cases hf : Fit c.counts
  · rw [if_pos hf] at h
    exact ⟨hf, (Except.ok.inj h).symm⟩
  · rw [if_neg hf] at h
    cases h

end Writing

section RoundTrip
variable {c : Config}

theorem written_fit {n : Nat} (h : n ≤ 0x7FFFFFFFFFFFFFFF) :
    Toml.Written (toString n).toList (.integer n) :=
  Toml.written_count (by rw [Toml.greatest]; omega)

theorem entered {name text : String} {v : Toml} (hb : Toml.Bare name)
    (hw : Toml.Written text.toList v) : Toml.Entered (name, text) (name, v) := ⟨rfl, hb, hw⟩

theorem factoryTexts_entered {options : FactoryOptions} (h : Fit [options.workers]) :
    List.Forall₂ Toml.Entered (factoryTexts options) (factoryEntries options) :=
  .cons (entered (by decide) (written_fit (h _ List.mem_cons_self)))
    (.cons (entered (by decide) (Toml.written_string _)) .nil)

theorem storeTexts_entered {options : StoreOptions} (h : Fit (storeCounts options)) :
    List.Forall₂ Toml.Entered (storeTexts options) (storeEntries options) := by
  obtain ⟨shards, capacity, persistent⟩ := options
  obtain ⟨hshards, hcapacity⟩ := List.forall_mem_cons.mp h
  have hfirst : Toml.Entered ("shards", toString shards) ("shards", .integer shards) :=
    entered (by decide) (written_fit hshards)
  have hlast : Toml.Entered ("persistent", toString persistent) ("persistent", .boolean persistent) :=
    entered (by decide) (Toml.written_boolean _)
  cases capacity with
  | none => exact .cons hfirst (.cons hlast .nil)
  | some n =>
    have hcount : Toml.Entered ("capacity", toString n) ("capacity", .integer n) :=
      entered (by decide) (written_fit (hcapacity n List.mem_cons_self))
    exact .cons hfirst (.cons hcount (.cons hlast .nil))

/-- The table of a store, in front of other lines. -/
theorem store_reads {options : StoreOptions} (h : Fit (storeCounts options)) {name : String}
    (hb : Toml.Bare name) {rest : List Char} {lines : List Toml.Line} (hr : Toml.Reads rest lines) :
    Toml.Reads ((Toml.writeTable ["stores", name] (storeTexts options)).toList ++ rest)
      (Toml.tableLines ["stores", name] (storeEntries options) ++ lines) := by
  have hpath : ∀ part ∈ ["stores", name], Toml.Bare part :=
    List.forall_mem_cons.mpr ⟨by decide, List.forall_mem_singleton.mpr hb⟩
  exact hr.table (List.cons_ne_nil _ _) hpath (show 2 ≤ Toml.nestingLimit by decide)
    (storeTexts_entered h)

theorem text_toList (c : Config) :
    c.text.toList =
      (Toml.writeTable ["factory"] (factoryTexts c.factory)).toList ++ '\n' ::
      ((Toml.writeTable ["stores", "metadata"] (storeTexts c.stores.metadata)).toList ++ '\n' ::
      ((Toml.writeTable ["stores", "names"] (storeTexts c.stores.names)).toList ++ '\n' ::
      (Toml.writeTable ["stores", "attributes"] (storeTexts c.stores.attributes)).toList)) := by
  simp [text, Toml.writeTables]

/-- The text is read as the lines of the configuration. -/
theorem text_reads (h : Fit c.counts) : Toml.Reads c.text.toList c.lines := by
  have hcounts : Fit [c.factory.workers] ∧ Fit (storeCounts c.stores.metadata) ∧
      Fit (storeCounts c.stores.names) ∧ Fit (storeCounts c.stores.attributes) := by
    simpa [Fit, counts, or_imp, forall_and] using h
  obtain ⟨hfactory, hmetadata, hnames, hattributes⟩ := hcounts
  -- each table is read in front of those after it, so the last one comes first here
  have hfourth := store_reads hattributes (by decide : Toml.Bare "attributes") Toml.reads_nil
  rw [List.append_nil, List.append_nil] at hfourth
  have hthird := store_reads hnames (by decide : Toml.Bare "names") hfourth.gap
  have hsecond := store_reads hmetadata (by decide : Toml.Bare "metadata") hthird.gap
  have hpath : ∀ part ∈ ["factory"], Toml.Bare part := List.forall_mem_singleton.mpr (by decide)
  rw [text_toList, lines]
  exact hsecond.gap.table (List.cons_ne_nil _ _) hpath (show 1 ≤ Toml.nestingLimit by decide)
    (factoryTexts_entered hfactory)

/-- A text of the lines of a valid configuration describes it. -/
theorem ofToml_of_reads (hv : c.validate = .ok ()) {text : String}
    (h : Toml.Reads text.toList c.lines) (hm : ∀ tail, text.toList ≠ '\uFEFF' :: tail) :
    ofToml text = .ok c := by
  have hread : Toml.read text = some c.entries := Toml.read_of_reads h hm (lines_entries c)
  have htyped : Toml.readAs readToml text = .ok c := by
    rw [Toml.readAs, hread]
    exact congrArg (Except.mapError _) (readToml_entries c)
  rw [ofToml, htyped]
  dsimp only
  rw [hv]
  rfl

theorem ofToml_text (hv : c.validate = .ok ()) (h : Fit c.counts) : ofToml c.text = .ok c := by
  refine ofToml_of_reads hv (text_reads h) fun tail he => ?_
  have hhead : c.text.toList.head? = some '[' := by
    rw [text_toList, Toml.writeTable, String.toList_append, String.toList_append,
      String.toList_append]
    rfl
  rw [he] at hhead
  exact absurd (Option.some.inj hhead) (by decide)

/-- What is read is valid. -/
theorem validate_of_ofToml {text : String} (h : ofToml text = .ok c) : c.validate = .ok () := by
  unfold ofToml at h
  split at h
  · cases h
  · rename_i read _
    cases hv : read.validate with
    | error fault =>
      rw [hv] at h
      cases h
    | ok _ =>
      rw [hv] at h
      cases h
      exact hv

end RoundTrip
end SessionAttributes.Config
