import DocComment.CommandLine.Run
import DocComment.Proofs.CommandLine.InPlace

/-!
# What a run may change

A run saves at most one file, the one it was asked to change in place, and only when nothing failed
before (`files_run`).  The two modes of re-flowing a file share all of their checks and the text
they compute, so what is saved is what the same arguments without the flag print.
-/

namespace DocComment

namespace Files

/-! ## Paths -/

/-- Inside a step the first character stays. -/
theorem head?_resolveFrom_true (path : Text) : (resolveFrom true path).head? = path.head? := by
  fun_cases resolveFrom true path <;> first | rfl | contradiction

/-- Between two steps no slash is left in front. -/
theorem inside_of_head?_resolveFrom {inside : Bool} {path : Text}
    (h : (resolveFrom inside path).head? = some '/') : inside = true := by
  fun_induction resolveFrom inside path with
  | case1 => cases h
  | case2 => rfl
  | case3 inside rest hinside ih => exact absurd (ih h) Bool.false_ne_true
  | case4 => rfl
  | case5 inside rest hinside ih => exact absurd (ih h) Bool.false_ne_true
  | case6 inside c rest hdot hslash => exact absurd (Option.some.inj h) hslash

/-- A path that is resolved has no steps left that stay in the directory. -/
theorem resolveFrom_resolveFrom (inside : Bool) (path : Text) :
    resolveFrom inside (resolveFrom inside path) = resolveFrom inside path := by
  fun_induction resolveFrom inside path with
  | case1 => rfl
  | case2 rest ih => simp [resolveFrom, ih]
  | case3 inside rest h ih => simpa [h] using ih
  | case4 rest ih => simp [resolveFrom, ih]
  | case5 inside rest h ih => simpa [h] using ih
  | case6 inside c rest hdot hslash ih =>
    rw [resolveFrom, ih]
    · intro slash hc hrest
      have hhead := head?_resolveFrom_true rest
      rw [hrest] at hhead
      obtain ⟨more, rfl⟩ := List.head?_eq_some_iff.mp hhead.symm
      exact hdot more hc rfl
    · exact hslash

/-- Resolving a path once is enough. -/
theorem resolve_resolve (path : Text) : resolve (resolve path) = resolve path := by
  have hhead : ((resolve path).head? == some '/') = (path.head? == some '/') := by
    unfold resolve
    cases hroot : path.head? == some '/' with
    | true => rw [head?_resolveFrom_true, hroot]
    | false =>
      refine beq_eq_false_iff_ne.mpr fun h => ?_
      cases inside_of_head?_resolveFrom h
  rw [resolve, hhead]
  exact resolveFrom_resolveFrom _ path

/-- A file is found under its resolved path if it is found at all. -/
theorem find?_resolve (files : Files) (path : Text) :
    files.find? (resolve path) = files.find? path := by
  rw [find?, resolve_resolve, find?]

/-! ## Files after a write -/

/-- Writing replaces the octets of a file that is there, under all of its paths, and no others. -/
theorem find?_write (files : Files) (path : Text) (octets : List UInt8) (other : Text) :
    (files.write path octets).find? other =
      (files.find? other).map fun old => if resolve other = resolve path then octets else old := by
  simp only [find?, write]
  induction files with
  | nil => rfl
  | cons file files ih =>
    obtain ⟨name, old⟩ := file
    -- The entry keeps its name, whether or not it is the one that is written.
    have hentry : (if name == resolve path then (name, octets) else (name, old)) =
        (name, if name = resolve path then octets else old) := by
      by_cases hpath : name = resolve path <;> simp [hpath]
    rw [List.map_cons, hentry, List.lookup_cons, List.lookup_cons]
    by_cases hother : resolve other = name
    · subst hother
      simp
    · have hne : (resolve other == name) = false := beq_eq_false_iff_ne.mpr hother
      rw [hne]
      exact ih

/-- Writing creates no file and removes none. -/
theorem map_fst_write (files : Files) (path : Text) (octets : List UInt8) :
    (files.write path octets).map Prod.fst = files.map Prod.fst := by
  rw [write, List.map_map]
  refine List.map_congr_left fun file _ => ?_
  simp only [Function.comp_apply]
  split <;> rfl

end Files

namespace CommandLine

section Perform

variable {world : World} {config : Config} {configPath : Option Text} {task : Task}
  {effect : Effect}

/-- Only re-flowing a file in place saves something. -/
theorem saved_of_edited?_eq_none (h : perform world config task = .ok effect)
    (hedited : (Invocation.run configPath task).edited? = none) : effect.saved = none := by
  cases task with
  | generate lang file plain json width =>
    obtain ⟨language, -, h⟩ := exists_of_bind_eq_ok h
    obtain ⟨input, -, h⟩ := exists_of_bind_eq_ok h
    obtain rfl := Except.ok.inj h
    rfl
  | format lang file width inPlace =>
    obtain ⟨language, -, h⟩ := exists_of_bind_eq_ok h
    obtain ⟨input, -, h⟩ := exists_of_bind_eq_ok h
    cases file with
    | none =>
      obtain rfl := Except.ok.inj h
      rfl
    | some path =>
      cases inPlace with
      | false =>
        obtain rfl := Except.ok.inj h
        rfl
      | true => cases hedited
  | tags lang typed json =>
    obtain ⟨language, -, h⟩ := exists_of_bind_eq_ok h
    obtain rfl := Except.ok.inj h
    rfl
  | header lang fileName workspaceName plain =>
    obtain ⟨language, -, h⟩ := exists_of_bind_eq_ok h
    obtain rfl := Except.ok.inj h
    rfl

/-- Only a file that is there can be read. -/
theorem isSome_find?_of_readInput {path input : Text}
    (h : readInput world (some path) = .ok input) : (world.files.find? path).isSome = true := by
  cases hfind : world.files.find? path with
  | none => simp [readInput, Files.read?, hfind] at h
  | some octets => rfl

/-- Re-flowing a file in place saves what re-flowing it otherwise prints. -/
theorem perform_printing {lang path : Text} {width : Option Nat}
    (h : perform world config (.format lang (some path) width true) = .ok effect) :
    ∃ output, (world.files.find? path).isSome = true ∧ effect = { saved := some (path, output) } ∧
      perform world config (.format lang (some path) width false) = .ok { stdout := output } := by
  obtain ⟨language, hlanguage, h⟩ := exists_of_bind_eq_ok h
  obtain ⟨input, hinput, h⟩ := exists_of_bind_eq_ok h
  obtain rfl := Except.ok.inj h
  refine ⟨_, isSome_find?_of_readInput hinput, rfl, ?_⟩
  simp only [perform, hlanguage, hinput]
  rfl

end Perform

/-! ## Runs -/

section Outcome

variable {world : World} {invocation : Invocation} {configPath : Option Text} {task : Task}

/-- A task runs to its end, or the files are left alone. -/
theorem outcome_run_cases (world : World) (configPath : Option Text) (task : Task) :
    ((Invocation.run configPath task).outcome world).code = 1 ∧
        ((Invocation.run configPath task).outcome world).files = world.files ∨
      ∃ config effect, loadConfig world configPath = .ok config ∧
        perform world config task = .ok effect := by
  cases hrun : (loadConfig world configPath).bind fun config => perform world config task with
  | error failure =>
    refine Or.inl ?_
    simp only [Invocation.outcome, hrun, and_self]
  | ok effect =>
    obtain ⟨config, hconfig, hperform⟩ := exists_of_bind_eq_ok hrun
    exact Or.inr ⟨config, effect, hconfig, hperform⟩

theorem outcome_run {config : Config} {effect : Effect}
    (hconfig : loadConfig world configPath = .ok config)
    (hperform : perform world config task = .ok effect) :
    (Invocation.run configPath task).outcome world =
      { stdout := effect.stdout
        files := match effect.saved with
          | some (path, text) => world.files.write path (Text.toOctets text)
          | none => world.files } := by
  have hrun : ((loadConfig world configPath).bind fun config => perform world config task) =
      .ok effect := by
    rw [hconfig]
    exact hperform
  obtain ⟨stdout, saved⟩ := effect
  cases saved <;> simp only [Invocation.outcome, hrun]

/-- Only a task that runs to its end can change a file. -/
theorem outcome_cases (world : World) (invocation : Invocation) :
    (invocation.outcome world).files = world.files ∨
      ∃ configPath task config effect, invocation = .run configPath task ∧
        loadConfig world configPath = .ok config ∧ perform world config task = .ok effect := by
  cases invocation with
  | version => exact Or.inl rfl
  | help => exact Or.inl rfl
  | usage => exact Or.inl rfl
  | run configPath task =>
    rcases outcome_run_cases world configPath task with
      ⟨-, hfiles⟩ | ⟨config, effect, hconfig, hperform⟩
    · exact Or.inl hfiles
    · exact Or.inr ⟨configPath, task, config, effect, rfl, hconfig, hperform⟩

/-- A run that fails changes no file. -/
theorem files_of_code_ne_zero (h : (invocation.outcome world).code ≠ 0) :
    (invocation.outcome world).files = world.files := by
  rcases outcome_cases world invocation with hfiles | ⟨_, _, _, _, rfl, hconfig, hperform⟩
  · exact hfiles
  · rw [outcome_run hconfig hperform] at h
    exact absurd rfl h

/-- A run that was not asked to change a file changes none. -/
theorem files_of_edited?_eq_none (h : invocation.edited? = none) :
    (invocation.outcome world).files = world.files := by
  rcases outcome_cases world invocation with hfiles | ⟨_, _, _, _, rfl, hconfig, hperform⟩
  · exact hfiles
  · rw [outcome_run hconfig hperform, saved_of_edited?_eq_none hperform h]

theorem edited?_eq_some {path : Text} (h : invocation.edited? = some path) :
    ∃ configPath lang width,
      invocation = .run configPath (.format lang (some path) width true) := by
  unfold Invocation.edited? at h
  split at h
  · obtain rfl := Option.some.inj h
    exact ⟨_, _, _, rfl⟩
  · cases h

/-- A run that changes a file in place saves there what the same run prints without the flag. -/
theorem files_of_edited?_eq_some {path : Text} (h : invocation.edited? = some path)
    (hcode : (invocation.outcome world).code = 0) :
    (world.files.find? path).isSome = true ∧ (invocation.printing.outcome world).code = 0 ∧
      (invocation.outcome world).files =
        world.files.write path (Text.toOctets (invocation.printing.outcome world).stdout) := by
  obtain ⟨configPath, lang, width, rfl⟩ := edited?_eq_some h
  rcases outcome_run_cases world configPath (.format lang (some path) width true) with
    ⟨hfailed, -⟩ | ⟨config, effect, hconfig, hperform⟩
  · rw [hfailed] at hcode
    cases hcode
  · obtain ⟨output, hfile, rfl, hprinting⟩ := perform_printing hperform
    have hprinted := outcome_run hconfig hprinting
    rw [Invocation.printing, hprinted, outcome_run hconfig hperform]
    exact ⟨hfile, rfl, rfl⟩

end Outcome

/-- **Files change only where asked.**  A run that fails, or that was not asked to change a file in
place, leaves the files as they are.  One that was asked to, and succeeds, replaces this file by
what the same arguments without the flag print, and no other; without the flag the arguments ask for
the same in every other respect. -/
theorem files_run (args : List Text) (world : World) :
    ((run args world).code ≠ 0 → (run args world).files = world.files) ∧
      ((Invocation.ofArgs args).edited? = none → (run args world).files = world.files) ∧
      ∀ path, (Invocation.ofArgs args).edited? = some path → (run args world).code = 0 →
        Invocation.ofArgs (withoutInPlace args) = (Invocation.ofArgs args).printing ∧
        (run (withoutInPlace args) world).code = 0 ∧
        (run args world).files.map Prod.fst = world.files.map Prod.fst ∧
        ∀ other, (run args world).files.find? other =
          if Files.resolve other = Files.resolve path then
            some (Text.toOctets (run (withoutInPlace args) world).stdout)
          else world.files.find? other := by
  refine ⟨files_of_code_ne_zero, files_of_edited?_eq_none, ?_⟩
  intro path hpath hcode
  have hargs := ofArgs_withoutInPlace hpath
  obtain ⟨hfile, hprinted, hfiles⟩ := files_of_edited?_eq_some hpath hcode
  have hrun : run (withoutInPlace args) world =
      (Invocation.ofArgs args).printing.outcome world := by rw [run, hargs]
  rw [hrun]
  refine ⟨hargs, hprinted, ?_, ?_⟩
  · rw [run, hfiles, Files.map_fst_write]
  · intro other
    rw [run, hfiles, Files.find?_write]
    by_cases hother : Files.resolve other = Files.resolve path
    · have hthere : (world.files.find? other).isSome = true := by
        rw [Files.find?, hother]
        exact hfile
      obtain ⟨old, hold⟩ := Option.isSome_iff_exists.mp hthere
      simp [hold, hother]
    · simp [hother]

/-- Two files, one with a comment to re-flow. -/
def twoFiles : World where
  files := [("A.java", Text.toOctets "/**\n*a\n*/"), ("B.java", Text.toOctets "int b;")]
  year := 2024

theorem files_run_twoFiles :
    (run ["format", "-i", "--lang", "klingon", "A.java"] twoFiles).files = twoFiles.files ∧
      (run ["format", "--lang", "java", "A.java"] twoFiles).files = twoFiles.files ∧
      ∀ other, (run ["format", "-il", "java", "./A.java"] twoFiles).files.find? other =
        if Files.resolve other = Files.resolve "./A.java" then
          some (Text.toOctets (run ["format", "-l", "java", "./A.java"] twoFiles).stdout)
        else twoFiles.files.find? other := by
  have hargs : withoutInPlace ["format", "-il", "java", "./A.java"] =
      (["format", "-l", "java", "./A.java"] : List Text) := by decide +kernel
  refine ⟨(files_run _ _).1 (by decide +kernel), (files_run _ _).2.1 (by decide +kernel), ?_⟩
  rw [← hargs]
  exact ((files_run _ twoFiles).2.2 _ (by decide +kernel) (by decide +kernel)).2.2.2

end CommandLine

end DocComment
