import DocExport.Proofs.Envelopes
import DocExport.Proofs.Processing
import DocExport.Proofs.RoundTrip

/-! How a run of a command ends. It prints nothing before all of its documents are processed, so it prints either
everything or nothing, and the failure that ends it is the first one on its way. -/
namespace DocExport.CommandLine
variable {s : Surroundings} {invocation : Invocation} {o : RenderOptions} {fault : Fault} {printed : Printed}
  {responses docs : List Document}

def Command.input : Command → String
  | .render input _ | .flatten input _ _ | .project input _ _ | .get _ input => input

/-- A document and the end of its line. -/
def lineText (pretty : Bool) (d : Document) : String := (if pretty then d.indented else d.compact) ++ "\n"

/-- The line for the document at a position, of the commands that print one for each. -/
def Command.line? : Command → Option (Document × Nat → Except Failure String)
  | .render .. => none
  | .flatten _ keys pretty => some fun x =>
    ((x.1.toRowAt ((keys.map Text.items).getD []) x.2).mapError .format).map fun row => lineText pretty (.ofRow row)
  | .project _ keys pretty => some fun x =>
    ((x.1.restrict (Text.items keys)).mapError .addressing).map (lineText pretty)
  | .get path _ => some fun x =>
    ((x.1.get (Path.ofText path)).mapError .addressing).map fun found => lineText false (found.getD .null)

/-- The settings can be loaded, and there is a renderer for them. -/
def Configures (s : Surroundings) (config : Option String) (renderer : Renderer) : Prop :=
  ∃ settings, loadSettings s config = .ok settings ∧ Renderer.ofSettings .builtIn settings = .ok renderer

/-- All is well before the input is read. Only rendering depends on the configuration. -/
def Ready (s : Surroundings) (invocation : Invocation) : Prop :=
  match invocation.command with
  | .render .. => ∃ renderer, Configures s invocation.config renderer
  | _ => True

/-- The documents that a rendering starts from. -/
inductive Unwraps (o : RenderOptions) (responses : List Document) : List Document → Prop where
  | whole : o.unwrapRows = false → Unwraps o responses responses
  | rows {batches : List (List Document)} :
    o.unwrapRows = true →
      List.Forall₂ (fun (x : Document × Nat) batch => x.1.batchAt x.2 = .ok batch) responses.zipIdx batches →
      Unwraps o responses batches.flatten

/-- What a run fails with, and at which stage. The rules stand in the order of the stages, and each of them says
that the stages before went well. -/
inductive Fails (s : Surroundings) : Invocation → Fault → Prop where
  | settings {config : Option String} {input : String} {o : RenderOptions} {failure : Failure} :
    loadSettings s config = .error failure → Fails s ⟨.render input o, config⟩ (.failure failure)
  | renderer {config : Option String} {input : String} {o : RenderOptions} {settings : Settings}
      {fault : SettingsFault} :
    loadSettings s config = .ok settings → Renderer.ofSettings .builtIn settings = .error fault →
      Fails s ⟨.render input o, config⟩ (.failure (.settings fault))
  | input {invocation : Invocation} {fault : Fault} :
    Ready s invocation → readDocuments s invocation.command.input = .error fault → Fails s invocation fault
  | rows {config : Option String} {input : String} {o : RenderOptions} {renderer : Renderer}
      {responses : List Document} {fault : FormatFault} :
    Configures s config renderer → readDocuments s input = .ok responses → o.unwrapRows = true →
      FirstFails (fun x : Document × Nat => x.1.batchAt x.2) responses.zipIdx fault →
      Fails s ⟨.render input o, config⟩ (.failure (.format fault))
  | rendering {config : Option String} {input : String} {o : RenderOptions} {renderer : Renderer}
      {responses docs : List Document} {failure : Failure} :
    Configures s config renderer → readDocuments s input = .ok responses → Unwraps o responses docs →
      renderer.Fails o.request docs failure → Fails s ⟨.render input o, config⟩ (.failure failure)
  | line {invocation : Invocation} {line : Document × Nat → Except Failure String} {docs : List Document}
      {failure : Failure} :
    invocation.command.line? = some line → readDocuments s invocation.command.input = .ok docs →
      FirstFails line docs.zipIdx failure → Fails s invocation (.failure failure)

/-- What a run prints if no stage fails on any document. -/
inductive Completes (s : Surroundings) : Invocation → Printed → Prop where
  | rendering {config : Option String} {input : String} {o : RenderOptions} {renderer : Renderer}
      {responses docs : List Document} {response : Response} :
    Configures s config renderer → readDocuments s input = .ok responses → Unwraps o responses docs →
      renderer.Completes o.request docs response → Completes s ⟨.render input o, config⟩
        ⟨response.body, if o.showContentType then s!"Content-Type: {response.contentType}\n" else ""⟩
  | lines {invocation : Invocation} {line : Document × Nat → Except Failure String} {docs : List Document}
      {lines : List String} :
    invocation.command.line? = some line → readDocuments s invocation.command.input = .ok docs →
      List.Forall₂ (fun x text => line x = .ok text) docs.zipIdx lines → Completes s invocation ⟨String.join lines, ""⟩

theorem printDocuments_eq (pretty : Bool) (docs : List Document) :
    printDocuments pretty docs = ⟨String.join (docs.map (lineText pretty)), ""⟩ := rfl

/-- Results that are shown as documents are printed line by line. -/
theorem printed_eq {ε β : Type} (results : Except ε (List β)) (failure : ε → Failure) (shown : β → Document)
    (pretty : Bool) :
    ((results.mapError (Fault.failure ∘ failure)).bind fun results => .ok (printDocuments pretty (results.map shown))) =
      (((results.mapError failure).map (List.map (lineText pretty ∘ shown))).mapError Fault.failure).map
        fun lines => ⟨String.join lines, ""⟩ := by
  cases results with
  | error fault => rfl
  | ok results =>
    refine congrArg Except.ok ?_
    rw [printDocuments_eq, List.map_map]

/-- The commands that print a line for each document process all documents first. -/
theorem runCommand_eq_of_line? {line : Document × Nat → Except Failure String}
    (h : invocation.command.line? = some line) :
    runCommand s invocation = readDocuments s invocation.command.input >>= fun docs =>
      ((docs.zipIdx.mapM line).mapError .failure).map fun lines => (⟨String.join lines, ""⟩ : Printed) := by
  obtain ⟨command, config⟩ := invocation
  cases command with
  | render input o => cases h
  | flatten input keys pretty =>
    cases h
    refine congrArg (readDocuments s input >>= ·) (funext fun docs => ?_)
    rw [mapM_mapError_map]
    exact printed_eq (Document.toRows ((keys.map Text.items).getD []) docs) .format .ofRow pretty
  | project input keys pretty =>
    cases h
    refine congrArg (readDocuments s input >>= ·) (funext fun docs => ?_)
    have hprinted := printed_eq (Document.restrictAll (Text.items keys) docs) .addressing id pretty
    simp only [List.map_id] at hprinted
    rw [mapM_mapError_map, mapM_zipIdx]
    exact hprinted
  | get path input =>
    cases h
    refine congrArg (readDocuments s input >>= ·) (funext fun docs => ?_)
    have hfound : (docs.zipIdx.mapM fun x : Document × Nat => x.1.get (.ofText path)) =
      docs.mapM fun d : Document => d.get (.ofText path) := mapM_zipIdx docs 0
    rw [mapM_mapError_map, hfound]
    exact printed_eq (docs.mapM fun d : Document => d.get (.ofText path)) .addressing (·.getD .null) false

/-- The documents of a rendering, or the failure to have them. -/
def unwrapped (o : RenderOptions) (responses : List Document) : Except FormatFault (List Document) :=
  if o.unwrapRows then Document.unwrapRows responses else .ok responses

theorem unwrapped_eq_ok_iff : unwrapped o responses = .ok docs ↔ Unwraps o responses docs := by
  rw [unwrapped]
  constructor
  · intro h
    split at h
    · rename_i hrows
      rw [Document.unwrapRows_eq_map, map_eq_ok_iff] at h
      obtain ⟨batches, hbatches, rfl⟩ := h
      exact .rows hrows (mapM_eq_ok_iff.mp hbatches)
    · rename_i hwhole
      cases h
      exact .whole (Bool.eq_false_iff.mpr hwhole)
  · intro h
    cases h with
    | whole hwhole => rw [hwhole, if_neg Bool.false_ne_true]
    | rows hrows hbatches =>
      rw [if_pos hrows, Document.unwrapRows_eq_map, mapM_eq_ok_iff.mpr hbatches]
      rfl

theorem unwrapped_eq_error_iff {fault : FormatFault} :
    unwrapped o responses = .error fault ↔
      o.unwrapRows = true ∧ FirstFails (fun x : Document × Nat => x.1.batchAt x.2) responses.zipIdx fault := by
  rw [unwrapped]
  split
  · rename_i hrows
    rw [Document.unwrapRows_eq_map, map_eq_error_iff, mapM_eq_error_iff]
    exact (and_iff_right hrows).symm
  · rename_i hwhole
    exact iff_of_false nofun fun h => hwhole h.1

theorem runRender_eq (s : Surroundings) (config : Option String) (input : String) (o : RenderOptions) :
    runRender s config input o = (loadSettings s config).mapError .failure >>= fun settings =>
      (Renderer.ofSettings .builtIn settings).mapError (.failure ∘ .settings) >>= fun renderer =>
      readDocuments s input >>= fun responses =>
      (unwrapped o responses).mapError (.failure ∘ .format) >>= fun docs =>
      ((renderer.render o.request docs).mapError .failure).map fun response =>
        (⟨response.body, if o.showContentType then s!"Content-Type: {response.contentType}\n" else ""⟩ : Printed) := by
  rw [runRender]
  congr 1
  funext settings
  congr 1
  funext renderer
  congr 1
  funext responses
  rw [unwrapped]
  cases o.unwrapRows with
  | false =>
    cases renderer.render o.request responses with
    | error failure => rfl
    | ok response => rfl
  | true =>
    cases Document.unwrapRows responses with
    | error fault => rfl
    | ok docs =>
      cases renderer.render o.request docs with
      | error failure => rfl
      | ok response => rfl

theorem runRender_eq_error_iff {config : Option String} {input : String} :
    runRender s config input o = .error fault ↔ Fails s ⟨.render input o, config⟩ fault := by
  simp only [runRender_eq, bind_eq_error_iff, mapError_eq_error_iff, mapError_eq_ok_iff, map_eq_error_iff,
    unwrapped_eq_error_iff, unwrapped_eq_ok_iff, Renderer.render_eq_error_iff]
  constructor
  · rintro (⟨failure, hload, rfl⟩ | ⟨settings, hload, ⟨fault, hmake, rfl⟩ | ⟨renderer, hmake, hrest⟩⟩)
    · exact .settings hload
    · exact .renderer hload hmake
    · have hconfigures : Configures s config renderer := ⟨settings, hload, hmake⟩
      rcases hrest with hread | ⟨responses, hread, hrest⟩
      · exact .input ⟨renderer, hconfigures⟩ hread
      · rcases hrest with ⟨fault, ⟨hrows, hfirst⟩, rfl⟩ | ⟨docs, hunwraps, failure, hfails, rfl⟩
        · exact .rows hconfigures hread hrows hfirst
        · exact .rendering hconfigures hread hunwraps hfails
  · intro h
    cases h with
    | settings hload => exact .inl ⟨_, hload, rfl⟩
    | renderer hload hmake => exact .inr ⟨_, hload, .inl ⟨_, hmake, rfl⟩⟩
    | input hready hread =>
      obtain ⟨renderer, settings, hload, hmake⟩ := hready
      exact .inr ⟨settings, hload, .inr ⟨renderer, hmake, .inl hread⟩⟩
    | rows hconfigures hread hrows hfirst =>
      obtain ⟨settings, hload, hmake⟩ := hconfigures
      exact .inr ⟨settings, hload, .inr ⟨_, hmake, .inr ⟨_, hread, .inl ⟨_, ⟨hrows, hfirst⟩, rfl⟩⟩⟩⟩
    | rendering hconfigures hread hunwraps hfails =>
      obtain ⟨settings, hload, hmake⟩ := hconfigures
      exact .inr ⟨settings, hload, .inr ⟨_, hmake, .inr ⟨_, hread, .inr ⟨_, hunwraps, _, hfails, rfl⟩⟩⟩⟩
    | line hline => cases hline

theorem runRender_eq_ok_iff {config : Option String} {input : String} :
    runRender s config input o = .ok printed ↔ Completes s ⟨.render input o, config⟩ printed := by
  simp only [runRender_eq, bind_eq_ok_iff, mapError_eq_ok_iff, map_eq_ok_iff, unwrapped_eq_ok_iff,
    Renderer.render_eq_ok_iff]
  constructor
  · rintro ⟨settings, hload, renderer, hmake, responses, hread, docs, hunwraps, response, hcompletes, rfl⟩
    exact .rendering ⟨settings, hload, hmake⟩ hread hunwraps hcompletes
  · intro h
    cases h with
    | rendering hconfigures hread hunwraps hcompletes =>
      obtain ⟨settings, hload, hmake⟩ := hconfigures
      exact ⟨settings, hload, _, hmake, _, hread, _, hunwraps, _, hcompletes, rfl⟩
    | lines hline => cases hline

theorem runCommand_eq_error_iff : runCommand s invocation = .error fault ↔ Fails s invocation fault := by
  obtain ⟨command, config⟩ := invocation
  cases hline : command.line? with
  | none =>
    cases command with
    | render input o => exact runRender_eq_error_iff
    | flatten | project | get => cases hline
  | some line =>
    have hready : Ready s ⟨command, config⟩ := by
      cases command with
      | render input o => cases hline
      | flatten | project | get => trivial
    rw [runCommand_eq_of_line? hline]
    simp only [bind_eq_error_iff, map_eq_error_iff, mapError_eq_error_iff, mapM_eq_error_iff]
    constructor
    · rintro (hread | ⟨docs, hread, failure, hfirst, rfl⟩)
      · exact .input hready hread
      · exact .line hline hread hfirst
    · intro h
      cases h with
      | input _ hread => exact .inl hread
      | line hown hread hfirst =>
        cases hline.symm.trans hown
        exact .inr ⟨_, hread, _, hfirst, rfl⟩
      | settings | renderer | rows | rendering => cases hline

theorem runCommand_eq_ok_iff : runCommand s invocation = .ok printed ↔ Completes s invocation printed := by
  obtain ⟨command, config⟩ := invocation
  cases hline : command.line? with
  | none =>
    cases command with
    | render input o => exact runRender_eq_ok_iff
    | flatten | project | get => cases hline
  | some line =>
    rw [runCommand_eq_of_line? hline]
    simp only [bind_eq_ok_iff, map_eq_ok_iff, mapError_eq_ok_iff, mapM_eq_ok_iff]
    constructor
    · rintro ⟨docs, hread, lines, hlines, rfl⟩
      exact .lines hline hread hlines
    · intro h
      cases h with
      | lines hown hread hlines =>
        cases hline.symm.trans hown
        exact ⟨_, hread, _, hlines, rfl⟩
      | rendering => cases hline

theorem run_of_ofArguments {texts : List String} (h : Invocation.ofArguments s.configVariable texts = .ok invocation) :
    run s texts = match runCommand s invocation with
      | .ok printed => .printed printed
      | .error fault => .faulty fault := by
  cases hcommand : runCommand s invocation with
  | ok printed => simp only [run, h, hcommand]
  | error fault => simp only [run, h, hcommand]

theorem Fault.exitCode_ne_zero (fault : Fault) : fault.exitCode ≠ 0 := by
  cases fault with
  | unreadable source => exact Nat.one_ne_zero
  | failure failure => cases failure <;> exact Nat.succ_ne_zero _

/-- A command that the arguments spell succeeds if the configuration, the input and each of its documents are in
order, and then prints all of them. Else it prints nothing, and the exit code is that of the first failure on its
way, be it that of the last document. -/
theorem run_all_or_nothing {texts : List String} (h : Invocation.ofArguments s.configVariable texts = .ok invocation) :
    let ending := run s texts
    (ending.exitCode ≠ 0 → ending.output = "") ∧
      (ending.exitCode = 0 ↔ ∃ printed, Completes s invocation printed) ∧
      (∀ printed, ending = .printed printed ↔ Completes s invocation printed) ∧
      (∀ fault, ending = .faulty fault ↔ Fails s invocation fault) ∧
      ∀ fault, Fails s invocation fault → ending.exitCode = match fault with
        | .failure (.addressing _) | .failure (.request _) | .failure (.settings _) => 3
        | .failure (.format _) => 4
        | _ => 1 := by
  simp only [run_of_ofArguments h, ← runCommand_eq_ok_iff, ← runCommand_eq_error_iff]
  cases runCommand s invocation with
  | ok printed =>
    refine ⟨fun hcode => absurd rfl hcode, iff_of_true rfl ⟨printed, rfl⟩, fun other => ?_, fun fault => ?_,
      fun fault h => ?_⟩
    · rw [Ending.printed.injEq, Except.ok.injEq]
    · exact iff_of_false nofun nofun
    · cases h
  | error fault =>
    refine ⟨fun _ => rfl, iff_of_false fault.exitCode_ne_zero nofun, fun printed => ?_, fun other => ?_,
      fun other h => ?_⟩
    · exact iff_of_false nofun nofun
    · rw [Ending.faulty.injEq, Except.error.injEq]
    · cases h
      cases fault with
      | unreadable source => rfl
      | failure failure => cases failure <;> rfl

/-- The last of three documents has an array where the path has a key; and a transform that is not known is found
before standard input, which is no text. -/
theorem run_all_or_nothing_last :
    let s : Surroundings :=
      { file? := fun _ => none, input? := some "[\x7b\"a\":\x7b\"x\":1\x7d\x7d,null,\x7b\"a\":[0]\x7d]"
        defaultConfig := "config.yml", configVariable := none, transformVariable := none }
    let s' : Surroundings := { s with input? := none, transformVariable := some "none" }
    (Invocation.ofArguments none ["get", "a.x"] = .ok ⟨.get "a.x" standardInput, none⟩ ∧
        Invocation.ofArguments none ["get", "a"] = .ok ⟨.get "a" standardInput, none⟩ ∧
        Invocation.ofArguments none ["render"] = .ok ⟨.render standardInput {}, none⟩) ∧
      ((run s ["get", "a.x"]).exitCode = 3 ∧ (run s ["get", "a.x"]).output = "") ∧
      (run s ["get", "a"]).output = "\x7b\"x\":1\x7d\nnull\n[0]\n" ∧
      (run s' ["get", "a"]).exitCode = 1 ∧ (run s' ["render"]).exitCode = 3 := by
  intro s s'
  have hlast : Invocation.ofArguments none ["get", "a.x"] = .ok ⟨.get "a.x" standardInput, none⟩ := by rfl
  have hall : Invocation.ofArguments none ["get", "a"] = .ok ⟨.get "a" standardInput, none⟩ := by rfl
  have hrender : Invocation.ofArguments none ["render"] = .ok ⟨.render standardInput {}, none⟩ := by rfl
  let docs : List Document :=
    [.object [("a", .object [("x", .scalar (.number (.integer 1)))])], .null,
      .object [("a", .array [.scalar (.number (.integer 0))])]]
  have hdistinct : (Document.array docs).Everywhere fun node => node.keys.Nodup := by decide
  have hexact : (Document.array docs).IsExact := by decide
  have htext : s.input? = some (Document.array docs).compact := by decide
  have hread : readDocuments s standardInput = .ok docs :=
    readDocuments_eq_ok ((if_pos rfl).trans htext) (Document.ofJson?_text hexact hdistinct (by decide)).1
  have hfails : Fails s ⟨.get "a.x" standardInput, none⟩ (.failure (.addressing (.notAnIndex "x" ⟨["x"], false⟩))) :=
    .line rfl hread (.later rfl (.later rfl (.here rfl)))
  have hcompletes : Completes s ⟨.get "a" standardInput, none⟩
      ⟨String.join ["\x7b\"x\":1\x7d\n", "null\n", "[0]\n"], ""⟩ :=
    .lines rfl hread (.cons rfl (.cons rfl (.cons rfl .nil)))
  have hunread : Fails s' ⟨.get "a" standardInput, none⟩ (.unreadable "stdin") := .input trivial rfl
  have hunknown : Fails s' ⟨.render standardInput {}, none⟩
      (.failure (.settings (.unknownTransform "none" Catalog.builtIn.names))) := .renderer rfl rfl
  obtain ⟨hnothing, -, -, -, hcodes⟩ := run_all_or_nothing (s := s) hlast
  have hcode : (run s ["get", "a.x"]).exitCode = 3 := hcodes _ hfails
  refine ⟨⟨hlast, hall, hrender⟩, ⟨hcode, hnothing (hcode ▸ Nat.succ_ne_zero 2)⟩, ?_, ?_, ?_⟩
  · rw [((run_all_or_nothing (s := s) hall).2.2.1 _).mpr hcompletes]
    rfl
  · exact (run_all_or_nothing (s := s') hall).2.2.2.2 _ hunread
  · exact (run_all_or_nothing (s := s') hrender).2.2.2.2 _ hunknown

end DocExport.CommandLine
