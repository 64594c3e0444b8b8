import SleighForge.Job.Delivery
import SleighForge.Proofs.FileTree
import SleighForge.Proofs.Model.Positions
import SleighForge.Proofs.Specification

/-!
# Delivered modules

A module is written file by file, after its directories are made. If the name of the processor is
one that a file can have, the files come to be one after the other and nothing else does, so a job
leaves the whole module or no file (`run_delivers`). A slash in the name leads into a directory that
was not made, when the manifest is there already (`run_leaves_manifest`).
-/

namespace SleighForge

namespace ModuleFiles

/-- The files of a module in its directory. -/
def contents (moduleDirectory : Place) (c : Config) (specification : String) :
    List (Place × ByteArray) :=
  (moduleDirectory ++ ["Module.manifest"], "".toUTF8) ::
    (languageFiles c specification).map fun file =>
      (moduleDirectory ++ ["data", "languages"] ++ [file.1], file.2.toUTF8)

/-- The paths to which the files of a module are written. -/
def paths (c : Config) (outputDirectory : Path) : List Path :=
  let moduleDirectory := directory c outputDirectory
  manifest moduleDirectory ::
    (languageFiles c "").map fun file =>
      (languageDirectory moduleDirectory).join (Path.ofText file.1)

/-! ## Runs of a writer -/

section

variable {α β : Type} {t t' t'' : FileTree}

/-- From the first tree the writer ends with the result in the second, whatever was remarked. -/
def Ends (t : FileTree) (x : Writing (StateM FileTree) α) (r : Except ModuleFault α)
    (t' : FileTree) : Prop :=
  ∀ journal, ∃ journal', FileTree.runOn t (x.run.run journal) = ((r, journal'), t')

/-- A run of two steps on a file system is the run of the second from where the first ends. -/
theorem runOn_bind (x : Writing (StateM FileTree) α) (f : α → Writing (StateM FileTree) β)
    (journal : Journal) :
    FileTree.runOn t ((x >>= f).run.run journal) =
      match FileTree.runOn t (x.run.run journal) with
      | ((.ok a, journal'), t') => FileTree.runOn t' ((f a).run.run journal')
      | ((.error fault, journal'), t') => ((.error fault, journal'), t') := by
  have hbind : FileTree.runOn t ((x >>= f).run.run journal) =
      match FileTree.runOn t (x.run.run journal) with
      | ((r, journal'), t') =>
        FileTree.runOn t' (StateT.run (ExceptT.bindCont f r) journal') := rfl
  rw [hbind]
  rcases FileTree.runOn t (x.run.run journal) with ⟨⟨fault | a, journal'⟩, t'⟩ <;> rfl

/-- A writer that goes well is followed by the next. -/
theorem Ends.bind {x : Writing (StateM FileTree) α} {f : α → Writing (StateM FileTree) β} {a : α}
    {r : Except ModuleFault β} (hx : Ends t x (.ok a) t') (hf : Ends t' (f a) r t'') :
    Ends t (x >>= f) r t'' := by
  intro journal
  obtain ⟨journal₁, hx⟩ := hx journal
  obtain ⟨journal₂, hf⟩ := hf journal₁
  exact ⟨journal₂, by rw [runOn_bind, hx, ← hf]⟩

/-- A writer that fails is followed by nothing. -/
theorem Ends.bind_error {x : Writing (StateM FileTree) α} {f : α → Writing (StateM FileTree) β}
    {fault : ModuleFault} (hx : Ends t x (.error fault) t') :
    Ends t (x >>= f) (.error fault) t' := by
  intro journal
  obtain ⟨journal₁, hx⟩ := hx journal
  exact ⟨journal₁, by rw [runOn_bind, hx]⟩

theorem ends_pure (t : FileTree) (a : α) : Ends t (pure a) (.ok a) t :=
  fun journal => ⟨journal, rfl⟩

theorem ends_note (t : FileTree) (severity : Severity) (text : String) :
    Ends t (note severity text) (.ok ⟨⟩) t :=
  fun _ => ⟨_, rfl⟩

/-- An operation on files ends as it does by itself. -/
theorem ends_step {op : StateM FileTree (Except FileFault α)} {r : Except FileFault α}
    (h : FileTree.runOn t op = (r, t')) : Ends t (step op) (r.mapError .files) t' := by
  intro journal
  have hstep : FileTree.runOn t ((step op).run.run journal) =
      (((FileTree.runOn t op).1.mapError .files, journal), (FileTree.runOn t op).2) := rfl
  exact ⟨journal, by rw [hstep, h]⟩

theorem ends_specificationOf (t : FileTree) (model : Model) :
    Ends t (specificationOf model) ((Specification.render model).mapError .specification) t :=
  fun journal => ⟨journal, rfl⟩

end

/-! ## Files one by one -/

variable {t : FileTree} {languages : Path} {place : Place}

/-- A file that can be written is there afterwards. -/
theorem ends_write {text : String} (h : t.Takes text place) (data : String) :
    Ends t (step (FileSystem.write text data)) (.ok ⟨⟩) (t.put place (.file data.toUTF8)) := by
  refine ends_step (r := .ok ()) ?_
  have hattempt := FileTree.runOn_attempt t (·.write text data)
  rw [h.write] at hattempt
  exact hattempt

/-- A language file is written into the directory of the languages. -/
theorem ends_writeLanguageFile {file : String × String}
    (h : t.Takes (languages.join (Path.ofText file.1)).toText place) :
    Ends t (writeLanguageFile languages file) (.ok ⟨⟩) (t.put place (.file file.2.toUTF8)) :=
  (ends_write h file.2).bind (ends_note _ _ _)

/-- Files whose paths lead into one directory come to be there. -/
theorem ends_languageFiles {files : List (String × String)}
    (h : ∀ file ∈ files,
      t.Takes (languages.join (Path.ofText file.1)).toText (place ++ [file.1])) :
    Ends t (files.forM (writeLanguageFile languages)) (.ok ⟨⟩)
      (t.putFiles (files.map fun file => (place ++ [file.1], file.2.toUTF8))) := by
  induction files generalizing t with
  | nil => exact ends_pure t _
  | cons file files ih =>
    have hfile := h file (List.mem_cons_self ..)
    rw [List.forM_eq_forM, List.forM_cons]
    refine (ends_writeLanguageFile hfile).bind (ih fun other hother => ?_)
    exact (h other (List.mem_cons_of_mem _ hother)).put_file hfile _

/-! ## Modules -/

/-- The names of the language files end differently. -/
theorem nodup_names (c : Config) (specification : String) :
    ((languageFiles c specification).map Prod.fst).Nodup := by
  simp [languageFiles]

/-- The manifest is not among the language files, which lie deeper. -/
theorem nodup_contents (moduleDirectory : Place) (c : Config) (specification : String) :
    ((contents moduleDirectory c specification).map Prod.fst).Nodup := by
  have hlanguages : ((languageFiles c specification).map fun file =>
      moduleDirectory ++ ["data", "languages"] ++ [file.1]).Nodup := by
    have hplaces := (nodup_names c specification).map
      (f := fun name => moduleDirectory ++ ["data", "languages"] ++ [name])
      fun a b hab => by simpa using hab
    rwa [List.map_map] at hplaces
  rw [contents, List.map_cons, List.map_map, List.nodup_cons]
  refine ⟨fun hmem => ?_, hlanguages⟩
  obtain ⟨file, -, heq⟩ := List.mem_map.1 hmem
  have hlength := congrArg List.length heq
  simp at hlength

variable {c : Config} {output : Path} {t₁ : FileTree}

theorem plain_directory (c : Config) (h : output.Plain) : (directory c output).Plain :=
  h.join (Path.plain_ofText c.name)

theorem plain_manifest {p : Path} (h : p.Plain) : (manifest p).Plain :=
  h.append (by decide)

/-- The languages are two directories further down. -/
theorem languageDirectory_eq (p : Path) :
    languageDirectory p = ⟨p.root, p.parts ++ ["data", "languages"]⟩ :=
  rfl

theorem plain_languageDirectory {p : Path} (h : p.Plain) : (languageDirectory p).Plain :=
  h.append (by decide)

/-- When its directories are made, the directory of the module is there, with the directory of the
language files below it. -/
theorem exists_places {p : Path} (hp : p.Plain)
    (h : t.kind? (languageDirectory p).toText = some .directory) :
    ∃ place, t.resolve p.toText = .ok place ∧ t.lookup place = some .directory ∧
      t.resolve (languageDirectory p).toText = .ok (place ++ ["data", "languages"]) ∧
      t.lookup (place ++ ["data", "languages"]) = some .directory := by
  have hlanguages := plain_languageDirectory hp
  have hparts : (languageDirectory p).parts = p.parts ++ ["data"] ++ ["languages"] :=
    (List.append_assoc _ ["data"] ["languages"]).symm
  obtain ⟨deep, hresolve, hdeep⟩ := FileTree.kind?_eq_directory_iff.1 h
  obtain ⟨hreadable, hwalk⟩ := (FileTree.resolve_toText_iff hlanguages).1 hresolve
  rw [FileTree.origin_toText hlanguages, hparts] at hwalk
  -- The two last steps are names, so they lead from a directory to what is below it.
  obtain ⟨data, hwalk, hlast⟩ := FileTree.walk_append_eq_ok_iff.1 hwalk
  obtain ⟨place, habove, hfirst⟩ := FileTree.walk_append_eq_ok_iff.1 hwalk
  obtain ⟨hplace, -, rfl⟩ :=
    (FileTree.walk_name ⟨by decide, by decide, by decide, by decide⟩).1 hfirst
  obtain ⟨-, -, rfl⟩ := (FileTree.walk_name ⟨by decide, by decide, by decide, by decide⟩).1 hlast
  rw [List.append_assoc] at hresolve hdeep
  refine ⟨place, (FileTree.resolve_toText_iff hp).2 ⟨?_, ?_⟩, hplace, hresolve, hdeep⟩
  · exact FileTree.readable_above hp hreadable
  · rw [FileTree.origin_toText hp]
    exact habove

/-- The language files are called after the processor. -/
theorem name_of_mem {specification : String} {file : String × String}
    (h : file ∈ languageFiles c specification) :
    ∃ ending ∈ [".slaspec", ".ldefs", ".pspec", ".cspec"], file.1 = c.name ++ ending := by
  simp only [languageFiles, List.mem_cons, List.not_mem_nil, or_false] at h
  rcases h with rfl | rfl | rfl | rfl <;> simp

/-- A language file has its path in the directory of the language files, if the name of the
processor has no slash. -/
theorem ofText_language {specification : String} {file : String × String}
    (hname : '/' ∉ c.name.toList) (h : file ∈ languageFiles c specification) :
    Path.ofText file.1 = ⟨"", [file.1]⟩ ∧ file.1 ≠ "" ∧ '/' ∉ file.1.toList := by
  obtain ⟨ending, hending, heq⟩ := name_of_mem h
  -- The endings are a closed list, so this much is decided.
  have hplain : 2 ≤ ending.toList.length ∧ '/' ∉ ending.toList := by
    clear heq
    revert ending
    decide
  have hlong : 2 ≤ file.1.toList.length := by
    rw [heq, String.toList_append, List.length_append]
    omega
  have hslash : '/' ∉ file.1.toList := by
    rw [heq, String.toList_append, List.mem_append, not_or]
    exact ⟨hname, hplain.2⟩
  have hempty : file.1 ≠ "" := by
    intro h
    rw [h] at hlong
    exact absurd hlong (by decide)
  have hdot : file.1 ≠ "." := by
    intro h
    rw [h] at hlong
    exact absurd hlong (by decide)
  exact ⟨Path.ofText_name hslash hempty hdot, hempty, hslash⟩

/-- If a file can be written wherever its directory is, each file of a module can be written in the
directory of the module. -/
theorem takes_contents (hp : output.Plain) (hname : '/' ∉ c.name.toList)
    (hmade : t.kind? (languageDirectory (directory c output)).toText = some .directory)
    (hadmits : ∀ path ∈ paths c output, t.Admits path) :
    ∃ place, t.resolve (directory c output).toText = .ok place ∧
      t.Takes (manifest (directory c output)).toText (place ++ ["Module.manifest"]) ∧
      ∀ specification, ∀ file ∈ languageFiles c specification,
        t.Takes ((languageDirectory (directory c output)).join (Path.ofText file.1)).toText
          (place ++ ["data", "languages"] ++ [file.1]) := by
  have hdirectory := plain_directory c hp
  obtain ⟨place, hresolve, hplace, hdeep, hlanguages⟩ := exists_places hdirectory hmade
  refine ⟨place, hresolve, ?_, ?_⟩
  · exact FileTree.takes_of_admits (plain_manifest hdirectory) hresolve hplace
      (hadmits _ (List.mem_cons_self ..))
  · intro specification file hfile
    obtain ⟨hpath, hempty, hslash⟩ := ofText_language hname hfile
    have hjoin : (languageDirectory (directory c output)).join (Path.ofText file.1) =
        ⟨(directory c output).root,
          (directory c output).parts ++ ["data", "languages"] ++ [file.1]⟩ := by
      rw [hpath, languageDirectory_eq]
      exact if_pos rfl
    -- The names of the files do not depend on the specification.
    have hmem : file.1 ∈ (languageFiles c "").map Prod.fst :=
      (List.mem_map_of_mem hfile : file.1 ∈ (languageFiles c specification).map Prod.fst)
    obtain ⟨other, hother, heq⟩ := List.mem_map.1 hmem
    have hadmit := hadmits _ (List.mem_cons_of_mem _ (List.mem_map_of_mem hother))
    rw [heq, hjoin] at hadmit
    have hplain := plain_languageDirectory hdirectory
    rw [hjoin]
    rw [languageDirectory_eq] at hdeep hplain
    refine FileTree.takes_of_admits (hplain.append ?_) hdeep hlanguages hadmit
    intro part hpart
    rw [List.mem_singleton.1 hpart]
    exact ⟨hempty, hslash⟩

variable {model : Model}

/-- Where the directories cannot be made, nothing is written. -/
theorem ends_of_refused {fault : FileFault}
    (hmake : FileTree.runOn t (FileSystem.makeDirectories
      (languageDirectory (directory model.config output))) = (.error fault, t₁)) :
    Ends t (write model output) (.error (.files fault)) t₁ := by
  unfold write
  exact (ends_note _ _ _).bind (ends_step hmake).bind_error

/-- Where the directories are made and files can be written, the whole module is. -/
theorem ends_of_made (hp : output.Plain) (hname : '/' ∉ model.config.name.toList) {text : String}
    (hrender : Specification.render model = .ok text)
    (hmake : FileTree.runOn t (FileSystem.makeDirectories
      (languageDirectory (directory model.config output))) = (.ok (), t₁))
    (hadmits : ∀ path ∈ paths model.config output, t₁.Admits path) :
    ∃ place, t₁.resolve (directory model.config output).toText = .ok place ∧
      (∀ file ∈ contents place model.config text, t₁.lookup file.1 ≠ some .directory) ∧
      Ends t (write model output) (.ok (directory model.config output))
        (t₁.putFiles (contents place model.config text)) := by
  have hmade := FileTree.makesDirectory t (languageDirectory (directory model.config output))
  rw [hmake] at hmade
  obtain ⟨place, hresolve, hmanifest, hfiles⟩ := takes_contents hp hname (hmade.made rfl) hadmits
  refine ⟨place, hresolve, ?_, ?_⟩
  · intro file hfile
    rcases List.mem_cons.1 hfile with rfl | hfile
    · exact hmanifest.lookup_ne
    · obtain ⟨file, hmem, rfl⟩ := List.mem_map.1 hfile
      exact (hfiles text file hmem).lookup_ne
  · unfold write
    -- The specification is rendered between the manifest and the files, and reads neither.
    have hspecification := ends_specificationOf
      (t₁.put (place ++ ["Module.manifest"]) (.file "".toUTF8)) model
    rw [hrender] at hspecification
    have hlanguages := ends_languageFiles
      fun file hfile => (hfiles text file hfile).put_file hmanifest "".toUTF8
    exact (ends_note _ _ _).bind ((ends_step hmake).bind ((ends_write hmanifest "").bind
      (hspecification.bind (hlanguages.bind ((ends_note _ _ _).bind (ends_pure _ _))))))

end ModuleFiles

/-! ## Jobs -/

namespace Job

variable {job : Job} {m m' : Model} {stats : List PassStats}

theorem config_of_combine (hrun : runFrom m job.combine = (.ok stats, m')) :
    m'.config = m.config := by
  unfold combine at hrun
  split at hrun
  · rw [runFrom_bind, Stage.note, runFrom_modify] at hrun
    cases hrun
    rfl
  · exact (Stage.sameFrame_of_passes hrun).config

/-- No stage changes the configuration. -/
theorem config_of_finish (hrun : runFrom m job.finish = (.ok stats, m')) :
    m'.config = m.config := by
  obtain ⟨m₁, m₂, hcombine, hnumber, hlay⟩ := finish_eq_ok.1 hrun
  obtain ⟨layouts, journal, -, rfl⟩ := Stage.layOut_inv hlay
  obtain ⟨journal', hnumber'⟩ :=
    Stage.runFrom_numberTables (m₁.note .info "Computing attach registers")
  rw [hnumber] at hnumber'
  have hconfig : m₂.config = m₁.config := by
    split at hnumber'
    · cases hnumber'
      rfl
    · cases hnumber'
  exact hconfig.trans (config_of_combine hcombine)

/-- The model of a job has the settings of the job and can be written down. -/
theorem config_of_build {lines : List String} {c : Collector}
    (h : (job.build lines c).result = .ok (m, stats)) : m.config = job.config := by
  obtain ⟨listing, hread⟩ := exists_read_of_build h
  obtain ⟨journal, heq⟩ := build_of_read hread
  rcases hrun : runFrom (job.start listing journal) job.finish with ⟨fault | stats', m'⟩
  · rw [h, hrun] at heq
    cases heq
  · rw [h, hrun] at heq
    cases heq
    exact config_of_finish hrun

/-- The specification of a model that was built can be rendered. -/
theorem render_of_build {lines : List String} {c : Collector}
    (h : (job.build lines c).result = .ok (m, stats)) :
    ∃ text, Specification.render m = .ok text := by
  obtain ⟨m₀, hready, hlay⟩ := exists_layOut_of_build h
  exact Specification.render_of_layOut hready.sound.named hlay

end Job

/-- An empty directory after the directories of a module were made in it, or were refused. -/
def ModuleFiles.prepared (workingDirectory : Place) (c : Config) (output : Path) :
    Except FileFault Unit × FileTree :=
  FileTree.runOn ⟨workingDirectory, []⟩
    (FileSystem.makeDirectories (languageDirectory (directory c output)))

/-- The files of the module of a model are in the tree, in the directory that a path leads to, and
there are no other files. -/
def Delivered (model : Model) (directory : Path) (t : FileTree) : Prop :=
  ∃ text place, Specification.render model = .ok text ∧
    t.resolve directory.toText = .ok place ∧
    ((ModuleFiles.contents place model.config text).map Prod.fst).Nodup ∧
    t.HasFiles (ModuleFiles.contents place model.config text)

/-- Delivering a model ends as writing its module does. -/
theorem Job.runOn_deliver {t t' : FileTree} {output : Path} {model : Model}
    {r : Except ModuleFault Path} (h : ModuleFiles.Ends t (ModuleFiles.write model output) r t')
    (c : Collector) : ∃ record, FileTree.runOn t (Job.deliver output model c) = (record, t') ∧
      record.result = (r.map (·, model)).mapError .ofModule := by
  obtain ⟨journal, hwrite⟩ := h model.journal
  unfold Job.deliver
  rw [FileTree.runOn_bind, hwrite]
  cases r with
  | error fault => exact ⟨_, rfl, rfl⟩
  | ok directory => exact ⟨_, rfl, rfl⟩

/-- Writing the module of a model that has a specification is all or nothing. -/
theorem Job.deliver_cases {workingDirectory : Place} {output : Path} {model : Model} {text : String}
    (hp : output.Plain) (hname : '/' ∉ model.config.name.toList)
    (hrender : Specification.render model = .ok text)
    (hadmits : (ModuleFiles.prepared workingDirectory model.config output).1 = .ok () →
      ∀ path ∈ ModuleFiles.paths model.config output,
        (ModuleFiles.prepared workingDirectory model.config output).2.Admits path)
    (c : Collector) : ∃ record t,
    FileTree.runOn ⟨workingDirectory, []⟩ (Job.deliver output model c) = (record, t) ∧
      (record.result = .ok (ModuleFiles.directory model.config output, model) ∧
          Delivered model (ModuleFiles.directory model.config output) t ∨
        ∃ fault, record.result = .error fault ∧ t.HasFiles []) := by
  have hempty := FileTree.hasFiles_empty workingDirectory
  have hgrown := (FileTree.makesDirectory ⟨workingDirectory, []⟩
    (ModuleFiles.languageDirectory (ModuleFiles.directory model.config output))).grown
  -- The text renders, so only the directories can refuse: after them every write has its place.
  rcases hmake : ModuleFiles.prepared workingDirectory model.config output with ⟨fault | _, t₁⟩
  all_goals
    rw [hmake] at hadmits
    unfold ModuleFiles.prepared at hmake
    rw [hmake] at hgrown
  · obtain ⟨record, hrun, hresult⟩ := runOn_deliver (ModuleFiles.ends_of_refused hmake) c
    exact ⟨record, t₁, hrun, .inr ⟨_, hresult, hempty.grown hgrown⟩⟩
  · obtain ⟨place, hresolve, hplaces, hends⟩ :=
      ModuleFiles.ends_of_made hp hname hrender hmake (hadmits rfl)
    obtain ⟨record, hrun, hresult⟩ := runOn_deliver hends c
    have hnodup := ModuleFiles.nodup_contents place model.config text
    refine ⟨record, _, hrun, .inl ⟨hresult, text, place, hrender, ?_, hnodup, ?_⟩⟩
    · exact (FileTree.Keeps.putFiles hplaces).resolve hresolve
    · exact (hempty.grown hgrown).putFiles hplaces hnodup

/-- A job that starts in an empty directory delivers the module of the model that it builds, or it
fails and leaves no file, if the name of the processor has no slash. It is assumed that, once the
directories of the module are made, a file can be written wherever its directory is. The numbers of
the configuration, alignment and address size among them, are taken to be printed whatever their
length; a printer with a limit could fail at one of them after the manifest. -/
theorem run_delivers (job : Job) (lines : List String) (output : String) (collector : Collector)
    (workingDirectory : Place) (hname : '/' ∉ job.config.name.toList)
    (hadmits : (ModuleFiles.prepared workingDirectory job.config (Path.ofText output)).1 = .ok () →
      ∀ path ∈ ModuleFiles.paths job.config (Path.ofText output),
        (ModuleFiles.prepared workingDirectory job.config (Path.ofText output)).2.Admits path) :
    ∃ record t, FileTree.runOn ⟨workingDirectory, []⟩
        (job.run lines (Path.ofText output) collector) = (record, t) ∧
      ((∃ model stats, (job.build lines collector).result = .ok (model, stats) ∧
          record.result = .ok (ModuleFiles.directory job.config (Path.ofText output), model) ∧
          Delivered model (ModuleFiles.directory job.config (Path.ofText output)) t) ∨
        ∃ fault, record.result = .error fault ∧ t.HasFiles []) := by
  unfold Job.run
  dsimp only
  cases hbuild : (job.build lines collector).result with
  | error fault =>
    exact ⟨_, _, rfl, .inr ⟨fault, rfl, FileTree.hasFiles_empty workingDirectory⟩⟩
  | ok built =>
    obtain ⟨model, stats⟩ := built
    -- A model that has been built renders, so the specification is never what stops the delivery.
    obtain ⟨text, hrender⟩ := Job.render_of_build hbuild
    rw [← Job.config_of_build hbuild] at hname hadmits ⊢
    obtain ⟨record, t, hrun, hcases⟩ := Job.deliver_cases (Path.plain_ofText output) hname hrender
      hadmits (job.build lines collector).collector
    refine ⟨record, t, hrun, hcases.imp_left ?_⟩
    rintro ⟨hresult, hdelivered⟩
    exact ⟨model, stats, rfl, hresult, hdelivered⟩

/-- A module is delivered into a relative directory. -/
theorem run_delivers_moves : ∃ record t model,
    FileTree.runOn ⟨["home"], []⟩
        (byteJob.run ["00010000 MOV r0"] (Path.ofText "out") {}) = (record, t) ∧
      record.result = .ok (⟨"", ["out", "P"]⟩, model) ∧
      Delivered model ⟨"", ["out", "P"]⟩ t := by
  have hok : (FileTree.runOn ⟨["home"], []⟩
      (byteJob.run ["00010000 MOV r0"] (Path.ofText "out") {})).1.result.isOk = true := by
    decide +kernel
  obtain ⟨record, t, hrun, hcases⟩ := run_delivers byteJob ["00010000 MOV r0"] "out" {} ["home"]
    (by decide) (by decide +kernel)
  rcases hcases with ⟨model, stats, -, hresult, hdelivered⟩ | ⟨fault, hresult, -⟩
  · exact ⟨record, t, model, hrun, hresult, hdelivered⟩
  · rw [hrun, hresult] at hok
    cases hok

/-- A processor whose name has a slash, for examples. -/
def slashConfig : Config :=
  { byteConfig with name := "a/b", name_not_blank := by decide +kernel }

/-- The model of this job is built and written down, and every file whose directory is there could
be written. The job fails all the same, and leaves the manifest. -/
theorem run_leaves_manifest :
    let job : Job := { config := slashConfig }
    let lines := ["0x00 NOP"]
    let done := FileTree.runOn ⟨[], []⟩ (job.run lines (Path.ofText "out") {})
    (∀ path ∈ ModuleFiles.paths slashConfig (Path.ofText "out"),
      (ModuleFiles.prepared [] slashConfig (Path.ofText "out")).2.Admits path) ∧
    (job.build lines {}).result.isOk = true ∧
    done.1.result.isOk = false ∧
    done.2.lookup ["out", "a", "b", "Module.manifest"] = some (.file "".toUTF8) := by
  refine ⟨by decide +kernel, by decide +kernel, by decide +kernel, ?_⟩
  decide +kernel

end SleighForge
