import SessionAttributes.CommandLine.Run
import SessionAttributes.Proofs.Config

namespace SessionAttributes.CommandLine

open Config

section Note
variable {c : Config}

theorem note_toList (c : Config) :
    (defaultsNote ++ c.text).toList =
      '#' :: (" defaults (no configuration file found)".toList ++ '\n' :: c.text.toList) := by
  rw [String.toList_append]
  rfl

/-- A note in front of the text changes nothing. -/
theorem note_reads (h : Fit c.counts) :
    Toml.Reads (defaultsNote ++ c.text).toList c.lines := by
  have hplain : ∀ d ∈ " defaults (no configuration file found)".toList, Toml.isPlain d = true :=
    List.all_eq_true.mp (by decide)
  rw [note_toList]
  exact (text_reads h).comment hplain

theorem ofToml_note (hv : c.validate = .ok ()) (h : Fit c.counts) :
    ofToml (defaultsNote ++ c.text) = .ok c := by
  refine ofToml_of_reads hv (note_reads h) fun tail he => ?_
  rw [note_toList] at he
  exact absurd (List.cons.inj he).1 (by decide)

end Note

section Shown
variable {c : Config}

/-- The configuration that counts is valid. -/
theorem validate_of_load {path : Option String} {read : String → Except FileFault String}
    {e : Effective} (h : load path read = .ok e) : e.config.validate = .ok () := by
  unfold load at h
  split at h
  · cases h
    rfl
  · split at h
    case h_5 => cases h
    case h_6 =>
      split at h
      · cases h
      · rename_i hread
        cases h
        exact validate_of_ofToml hread
    -- a file that is not there leaves the defaults
    all_goals
      cases h
      rfl

/-- A file with a text that describes a configuration leads to it. -/
theorem load_of_ofToml {text : String} (h : ofToml text = .ok c) {path : String}
    {read : String → Except FileFault String} (hr : read path = .ok text) :
    load (some path) read = .ok ⟨some path, true, c⟩ := by
  unfold load
  simp only [hr, h]

/-- A configuration that is shown has a text. -/
theorem toToml_of_shown {e : Effective} {output : String}
    (h : showConfig .text e = .printed output) :
    ∃ text, e.config.toToml = .ok text ∧
      output = (if e.loaded then "" else defaultsNote) ++ text := by
  unfold showConfig at h
  cases ht : e.config.toToml with
  | error fault =>
    rw [ht] at h
    exact Nat.noConfusion (congrArg Outcome.code h : 1 = 0)
  | ok text =>
    rw [ht] at h
    exact ⟨text, rfl, (congrArg Outcome.output h).symm⟩

section Run
variable {arguments : List String} {i : Invocation} {environment : String → Option String}
  {read : String → Except FileFault String} {e : Effective} {output : String}

/-- The configuration command shows the configuration that counts. -/
theorem run_shown (hi : readInvocation arguments environment = .ok i)
    (hc : i.command = .config false) (hf : i.format = .text)
    (hl : load (i.path environment) read = .ok e) :
    run arguments environment read = showConfig .text e := by
  simp only [run, hi, runInvocation, hl, hc, hf]

/-- Without a configuration that counts, nothing is printed. -/
theorem run_failed {cause : String} (hi : readInvocation arguments environment = .ok i)
    (hl : load (i.path environment) read = .error cause) :
    run arguments environment read = .failed cause := by
  simp only [run, hi, runInvocation, hl]

/-- What the configuration command prints is the text of the configuration that counts. -/
theorem shown_of_run (hi : readInvocation arguments environment = .ok i)
    (hc : i.command = .config false) (hf : i.format = .text)
    (hrun : run arguments environment read = .printed output) :
    ∃ e text, load (i.path environment) read = .ok e ∧ e.config.toToml = .ok text ∧
      output = (if e.loaded then "" else defaultsNote) ++ text := by
  cases hl : load (i.path environment) read with
  | error cause =>
    rw [run_failed hi hl] at hrun
    exact Nat.noConfusion (congrArg Outcome.code hrun : 1 = 0)
  | ok e =>
    rw [run_shown hi hc hf hl] at hrun
    obtain ⟨text, ht, houtput⟩ := toToml_of_shown hrun
    exact ⟨e, text, rfl, ht, houtput⟩

end Run

/-- A valid configuration has a TOML text unless a count in it is too large for a TOML integer, and
the text describes it. The text that the configuration command prints leads back to the configuration
that counts, with the note of defaults and without it. -/
theorem config_round_trip :
    (∀ c : Config, c.validate = .ok () →
      ((∃ fault, c.toToml = .error fault) ↔ ∃ n ∈ c.counts, 0x7FFFFFFFFFFFFFFF < n) ∧
      ∀ text, c.toToml = .ok text → ofToml text = .ok c) ∧
    ∀ (arguments : List String) (i : Invocation) (environment : String → Option String)
      (read : String → Except FileFault String) (output : String),
      readInvocation arguments environment = .ok i → i.command = .config false → i.format = .text →
      run arguments environment read = .printed output →
      ∃ e text, load (i.path environment) read = .ok e ∧ e.config.toToml = .ok text ∧
        output = (if e.loaded then "" else defaultsNote) ++ text ∧
        ∀ printed ∈ [text, defaultsNote ++ text], ofToml printed = .ok e.config ∧
          ∀ (path : String) (read' : String → Except FileFault String),
            read' path = .ok printed → load (some path) read' = .ok ⟨some path, true, e.config⟩ := by
  refine ⟨fun c hv => ⟨toToml_error_iff c, fun text ht => ?_⟩,
    fun arguments i environment read output hi hc hf hrun => ?_⟩
  · obtain ⟨hfit, rfl⟩ := fit_of_toToml ht
    exact ofToml_text hv hfit
  · obtain ⟨e, text, hl, ht, houtput⟩ := shown_of_run hi hc hf hrun
    refine ⟨e, text, hl, ht, houtput, fun printed hp => ?_⟩
    have hv := validate_of_load hl
    obtain ⟨hfit, rfl⟩ := fit_of_toToml ht
    have hread : ofToml printed = .ok e.config := by
      rcases List.mem_pair.mp hp with rfl | rfl
      · exact ofToml_text hv hfit
      · exact ofToml_note hv hfit
    exact ⟨hread, fun path read' hr => load_of_ofToml hread hr⟩

/-- Quotes of both kinds, a backslash, a tab, line breaks and a control character in the name, and the
greatest count. -/
def awkward : Config :=
  { factory := { threadName := "\"'\\\t\n\r\x01" }
    stores := { metadata := { capacity := some 0x7FFFFFFFFFFFFFFF } } }

theorem config_round_trip_awkward :
    (awkward.validate = .ok () ∧ awkward.toToml = .ok awkward.text ∧
      ofToml awkward.text = .ok awkward) ∧
    run ["config", "--config", "sessions.toml"] (fun _ => none) (fun _ => .ok awkward.text) =
      .printed awkward.text ∧
    ∃ e text, load (some "sessions.toml") (fun _ => .ok awkward.text) = .ok e ∧
      awkward.text = (if e.loaded then "" else defaultsNote) ++ text ∧
      ofToml (defaultsNote ++ text) = .ok e.config := by
  have hv : awkward.validate = .ok () := rfl
  have hfit : Fit awkward.counts := by decide
  have ht : awkward.toToml = .ok awkward.text := (toToml_eq _).trans (if_pos hfit)
  have hread := (config_round_trip.1 awkward hv).2 _ ht
  have hi : readInvocation ["config", "--config", "sessions.toml"] (fun _ => none) =
      .ok ⟨.config false, some "sessions.toml", .text⟩ := by decide +kernel
  have hload : load (some "sessions.toml") (fun _ => .ok awkward.text) =
      .ok ⟨some "sessions.toml", true, awkward⟩ := load_of_ofToml hread rfl
  have hrun : run ["config", "--config", "sessions.toml"] (fun _ => none)
      (fun _ => .ok awkward.text) = .printed awkward.text := by
    rw [run_shown hi rfl rfl hload]
    simp only [showConfig, ht, if_true, String.empty_append]
  obtain ⟨e, text, hl, -, ho, hprinted⟩ := config_round_trip.2 _ _ _ _ _ hi rfl rfl hrun
  exact ⟨⟨hv, ht, hread⟩, hrun, e, text, hl, ho,
    (hprinted _ (List.mem_cons_of_mem _ List.mem_cons_self)).1⟩

end Shown
end SessionAttributes.CommandLine
