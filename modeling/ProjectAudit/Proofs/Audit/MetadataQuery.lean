import ProjectAudit.Audit.Check
import ProjectAudit.Proofs.Cargo.Flaws
import ProjectAudit.Proofs.Run.HandingOver

/-!
# What becomes of the query for metadata

The query for metadata comes to a result for every reply of the tool but one kind: a process that
succeeded and printed a text that reading it was not prepared for.  A result carries metadata
exactly if its status is `ok`.  There is no result either if the call cannot be handed over to the
system, whatever the tool would reply.

* `queryMetadata_classifies`: the result for each reply.
* `queryMetadata_misshapen`: a reply for which there is none.
-/

namespace ProjectAudit

open Run Cargo

variable {h : Host} {toolchain : Toolchain} {manifest : Path} {script : Script}

/-- The query for metadata can be handed over to the system. -/
def Cargo.Toolchain.CanQuery (toolchain : Toolchain) (h : Host) (manifest : Path) : Prop :=
  toolchain.Passes h [] (toolchain.arguments "metadata" manifest ["--format-version", "1"])

/-! ## One lemma for each kind of reply -/

theorem queryMetadata_of_not_canQuery (hcannot : ¬ toolchain.CanQuery h manifest)
    (script : Script) :
    ∃ fault, (queryMetadata h toolchain manifest script).value = .error (.ofCall fault) := by
  obtain ⟨fault, hfault⟩ := value_attemptCall_of_not_passes hcannot
  rw [queryMetadata, Toolchain.metadata, bind_of_error hfault]
  exact ⟨fault, rfl⟩

variable (hcan : toolchain.CanQuery h manifest)
include hcan

theorem queryMetadata_of_notStarted {reason : Text}
    (hreply : script.reply "metadata" = .notStarted reason) :
    ∃ message, (queryMetadata h toolchain manifest script).value =
      .ok { status := .unavailable, message } := by
  rw [queryMetadata, Toolchain.metadata, bind_of_ok (value_attemptCall_of_passes hcan), hreply]
  exact ⟨_, rfl⟩

variable {response : Response}

theorem queryMetadata_of_failed (hreply : script.reply "metadata" = .finished response)
    (hexit : response.exitCode ≠ 0) :
    (queryMetadata h toolchain manifest script).value =
      .ok { status := .invalid, message := Text.trim (Text.Utf8.decodeLossy response.stderr) } := by
  have hsuccess : response.success = false := by simp [Response.success, hexit]
  rw [queryMetadata, Toolchain.metadata, bind_of_ok (value_attemptCall_of_passes hcan), hreply]
  simp only [Toolchain.replied, Output.success, hsuccess]
  rfl

/-- What becomes of a process that succeeded is decided by what it printed. -/
theorem queryMetadata_of_succeeded (hreply : script.reply "metadata" = .finished response)
    (hexit : response.exitCode = 0) :
    (∀ stdout m, Text.Utf8.decode response.stdout = .ok stdout → Metadata.ofText stdout = .ok m →
      (queryMetadata h toolchain manifest script).value = .ok (.ofMetadata m)) ∧
    (∀ stdout r, Text.Utf8.decode response.stdout = .ok stdout →
      Metadata.ofText stdout = .error (.rejected r) →
      (queryMetadata h toolchain manifest script).value =
        .ok { status := .unavailable, message := r.message }) ∧
    (∀ e, Text.Utf8.decode response.stdout = .error e →
      (queryMetadata h toolchain manifest script).value =
        .ok { status := .unavailable, message := e.message }) ∧
    (∀ stdout fault, Text.Utf8.decode response.stdout = .ok stdout →
      Metadata.ofText stdout = .error fault → (∀ r, fault ≠ .rejected r) →
      (queryMetadata h toolchain manifest script).value = .error (.metadata fault)) := by
  obtain ⟨exitCode, bytes, stderr⟩ := response
  obtain rfl : exitCode = 0 := hexit
  rw [queryMetadata, Toolchain.metadata, bind_of_ok (value_attemptCall_of_passes hcan), hreply]
  dsimp only [Toolchain.replied, Output.stdoutText]
  refine ⟨?_, ?_, ?_, ?_⟩
  · intro stdout m hdecode hread
    simp only [hdecode, hread]
    rfl
  · intro stdout r hdecode hread
    simp only [hdecode, hread]
    rfl
  · intro e hdecode
    simp only [hdecode]
    rfl
  · intro stdout fault hdecode hread hfault
    simp only [hdecode, hread]
    cases fault with
    | rejected r => exact absurd rfl (hfault r)
    | misshapen => rfl
    | limit l => rfl

omit hcan

/-! ## All replies -/

/-- The ends that the query can come to. -/
theorem queryMetadata_cases (h : Host) (toolchain : Toolchain) (manifest : Path)
    (script : Script) :
    let value := (queryMetadata h toolchain manifest script).value
    (∃ message, value = .ok { status := .unavailable, message }) ∨
    (∃ message, value = .ok { status := .invalid, message }) ∨
    (∃ m, value = .ok (.ofMetadata m)) ∨
    (∃ fault, ¬ toolchain.CanQuery h manifest ∧ value = .error (.ofCall fault)) ∨
    ∃ fault response stdout, value = .error (.metadata fault) ∧
      script.reply "metadata" = .finished response ∧ response.exitCode = 0 ∧
      Text.Utf8.decode response.stdout = .ok stdout ∧ Metadata.IsUnforeseen stdout := by
  intro value
  by_cases hcan : toolchain.CanQuery h manifest
  case neg =>
    obtain ⟨fault, hfault⟩ := queryMetadata_of_not_canQuery hcan script
    exact .inr (.inr (.inr (.inl ⟨fault, hcan, hfault⟩)))
  cases hreply : script.reply "metadata" with
  | notStarted reason => exact .inl (queryMetadata_of_notStarted hcan hreply)
  | finished response =>
    by_cases hexit : response.exitCode = 0
    · obtain ⟨hread, hrejected, hundecodable, hfault⟩ :=
        queryMetadata_of_succeeded hcan hreply hexit
      rcases hdecode : Text.Utf8.decode response.stdout with e | stdout
      · exact .inl ⟨_, hundecodable e hdecode⟩
      · rcases Metadata.ofText_cases stdout with
          ⟨⟨m, hm⟩, -⟩ | ⟨⟨r, hr⟩, -⟩ | ⟨⟨fault, hf, hne⟩, hunforeseen⟩
        · exact .inr (.inr (.inl ⟨m, hread stdout m hdecode hm⟩))
        · exact .inl ⟨_, hrejected stdout r hdecode hr⟩
        · have hvalue := hfault stdout fault hdecode hf hne
          exact .inr (.inr (.inr (.inr
            ⟨_, response, stdout, hvalue, rfl, hexit, hdecode, hunforeseen⟩)))
    · exact .inr (.inl ⟨_, queryMetadata_of_failed hcan hreply hexit⟩)

/-- The query ends with a failure exactly if it cannot be handed over, or a process succeeded and
what it printed was unforeseen. -/
theorem queryMetadata_fails_iff :
    Fails (queryMetadata h toolchain manifest script).value ↔
      ¬ toolchain.CanQuery h manifest ∨
        ∃ response stdout, script.reply "metadata" = .finished response ∧ response.exitCode = 0 ∧
          Text.Utf8.decode response.stdout = .ok stdout ∧ Metadata.IsUnforeseen stdout := by
  constructor
  · intro hfails
    rcases queryMetadata_cases h toolchain manifest script with
      ⟨message, hvalue⟩ | ⟨message, hvalue⟩ | ⟨m, hvalue⟩ | ⟨_, hcannot, -⟩ |
        ⟨_, response, stdout, -, hunforeseen⟩
    · exact absurd (hvalue ▸ hfails) (not_fails_ok _)
    · exact absurd (hvalue ▸ hfails) (not_fails_ok _)
    · exact absurd (hvalue ▸ hfails) (not_fails_ok _)
    · exact .inl hcannot
    · exact .inr ⟨response, stdout, hunforeseen⟩
  · intro hflawed
    by_cases hcan : toolchain.CanQuery h manifest
    case neg =>
      obtain ⟨fault, hfault⟩ := queryMetadata_of_not_canQuery hcan script
      exact ⟨_, hfault⟩
    obtain ⟨response, stdout, hreply, hexit, hdecode, hunforeseen⟩ :=
      hflawed.resolve_left (not_not_intro hcan)
    obtain ⟨-, -, -, hfault⟩ := queryMetadata_of_succeeded hcan hreply hexit
    rcases Metadata.ofText_cases stdout with ⟨-, h⟩ | ⟨-, h⟩ | ⟨⟨fault, hread, hne⟩, -⟩
    · exact absurd hunforeseen h
    · exact absurd hunforeseen h
    · exact ⟨_, hfault stdout fault hdecode hread hne⟩

/-- A result has metadata exactly if its status is `ok`. -/
theorem queryMetadata_metadata_iff {result : MetadataResult}
    (hresult : (queryMetadata h toolchain manifest script).value = .ok result) :
    result.metadata.isSome ↔ result.status = .ok := by
  rcases queryMetadata_cases h toolchain manifest script with
    ⟨message, hvalue⟩ | ⟨message, hvalue⟩ | ⟨m, hvalue⟩ | ⟨_, -, hvalue⟩ |
      ⟨fault, _, _, hvalue, -⟩
  · obtain rfl := Except.ok.inj (hvalue.symm.trans hresult)
    exact iff_of_false Bool.false_ne_true MetadataStatus.noConfusion
  · obtain rfl := Except.ok.inj (hvalue.symm.trans hresult)
    exact iff_of_false Bool.false_ne_true MetadataStatus.noConfusion
  · obtain rfl := Except.ok.inj (hvalue.symm.trans hresult)
    exact iff_of_true rfl rfl
  · cases hvalue.symm.trans hresult
  · cases hvalue.symm.trans hresult

/-- **The query for metadata classifies every reply of the tool**, but for one kind: it ends with a
failure exactly if a process succeeded and what it printed was unforeseen, which is JSON beyond the
limits of the reader, or JSON in which the first flaw is a value of a shape that nothing was
prepared for.  That is so if the call can be handed over to the system; one that cannot is a failure
as well. -/
theorem queryMetadata_classifies (h : Host) (toolchain : Toolchain) (manifest : Path)
    (script : Script) :
    let value := (queryMetadata h toolchain manifest script).value
    (toolchain.CanQuery h manifest →
      (∀ reason, script.reply "metadata" = .notStarted reason →
        ∃ message, value = .ok { status := .unavailable, message }) ∧
      (∀ response, script.reply "metadata" = .finished response → response.exitCode ≠ 0 →
        value = .ok { status := .invalid
                      message := Text.trim (Text.Utf8.decodeLossy response.stderr) }) ∧
      (∀ response stdout metadata, script.reply "metadata" = .finished response →
        response.exitCode = 0 → Text.Utf8.decode response.stdout = .ok stdout →
        Metadata.ofText stdout = .ok metadata → value = .ok (.ofMetadata metadata)) ∧
      (∀ response, script.reply "metadata" = .finished response → response.exitCode = 0 →
        (∀ stdout, Text.Utf8.decode response.stdout = .ok stdout →
          Fails (Metadata.ofText stdout) ∧ ¬ Metadata.IsUnforeseen stdout) →
        ∃ message, value = .ok { status := .unavailable, message })) ∧
    (Fails value ↔ ¬ toolchain.CanQuery h manifest ∨
      ∃ response stdout, script.reply "metadata" = .finished response ∧
        response.exitCode = 0 ∧ Text.Utf8.decode response.stdout = .ok stdout ∧
        Metadata.IsUnforeseen stdout) ∧
    ∀ result, value = .ok result → (result.metadata.isSome ↔ result.status = .ok) := by
  intro value
  refine ⟨fun hcan => ?_, queryMetadata_fails_iff, fun _ => queryMetadata_metadata_iff⟩
  refine ⟨fun _ => queryMetadata_of_notStarted hcan, fun _ => queryMetadata_of_failed hcan, ?_, ?_⟩
  · intro response stdout metadata hreply hexit hdecode hread
    exact (queryMetadata_of_succeeded hcan hreply hexit).1 stdout metadata hdecode hread
  · intro response hreply hexit hflawed
    obtain ⟨-, hrejected, hundecodable, -⟩ := queryMetadata_of_succeeded hcan hreply hexit
    rcases hdecode : Text.Utf8.decode response.stdout with e | stdout
    · exact ⟨_, hundecodable e hdecode⟩
    · obtain ⟨hfails, hforeseen⟩ := hflawed stdout hdecode
      rcases Metadata.ofText_cases stdout with ⟨hread, -⟩ | ⟨⟨r, hr⟩, -⟩ | ⟨-, hunforeseen⟩
      · exact absurd hfails (not_fails_iff.2 hread)
      · exact ⟨_, hrejected stdout r hdecode hr⟩
      · exact absurd hunforeseen hforeseen

/-- Dependencies that are a number end the query with a failure. -/
theorem queryMetadata_misshapen :
    let printed := "\x7b\"packages\":[\x7b\"name\":\"a\",\"dependencies\":5\x7d]\x7d"
    let script : Script :=
      [("metadata", [.finished { stdout := printed.toList.map fun c => .ofNat c.toNat }])]
    Fails (queryMetadata {} {} (.ofText "/p/Cargo.toml") script).value := by
  decide +kernel

end ProjectAudit
