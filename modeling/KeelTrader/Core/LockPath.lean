import KeelTrader.Core.AccountLock
import KeelTrader.Lib.PosixPath

set_option relaxedAutoImplicit false
set_option autoImplicit false

/-!
# The path of the lock file

The deploy script reads the lock file that the trader holds, so both resolve its path from the same
two inputs: `STATE_DIR` and the account name. `lock_file_path` of `ops/deploy_live_trader.sh` takes
an empty `STATE_DIR` for one that is unset, leaves a tilde alone and the account name as it is;
`lock_path_for_account` of `core/alpaca_account_lock.py` takes an empty one for the repository,
expands a tilde and normalises the account name.

## Main definitions

* `KeelTrader.Core.lockFilePath`, `lockPathForAccount` — the two resolutions.
* `KeelTrader.Core.PathsAgree` — both lead to the same file.
* `KeelTrader.Core.RepoRoot.ReadAlike` — the values of `STATE_DIR` that both read alike.

## Main results

* `KeelTrader.Core.parse_lockFilePath` — the path that the script prints, as components.
* `KeelTrader.Core.pathsAgree_iff` — for every `STATE_DIR` and every accepted account name, both
  agree exactly when the name is a normalised one and `STATE_DIR` is unset or read alike.
-/

namespace KeelTrader.Core

/-! ## The repository -/

/-- The root of the repository: `REPO_ROOT` of the script and `REPO` of the module. -/
structure RepoRoot where
  text : String
  /-- `pwd` and `resolve` give absolute paths. -/
  absolute : text.toList.head? = some '/'

/-- The path itself if it is absolute, and below the repository otherwise. -/
def RepoRoot.resolve (repo : RepoRoot) (path : PosixPath) : PosixPath :=
  if path.absolute then path else (PosixPath.parse repo.text).join path

/-! ## The script -/

/-- `${NAME:-default}`: the default stands for an empty value as well. -/
def shellDefault (value : Option String) (default : String) : String :=
  match value with
  | none => default
  | some text => if text = "" then default else text

/-- `lock_file_path`, with the variables `STATE_DIR` and `KEEL_ALPACA_ACCOUNT`. -/
def lockFilePath (repo : RepoRoot) (stateDir keelAlpacaAccount : Option String) : String :=
  let accountName := shellDefault keelAlpacaAccount "alpaca_live_writer"
  let sd := shellDefault stateDir "strategy_state"
  let sd := if sd.toList.head? = some '/' then sd else repo.text ++ "/" ++ sd
  sd ++ "/account_locks/" ++ accountName ++ ".lock"

/-! ## The module -/

/-- The exceptions of `lock_path_for_account`. -/
inductive LockPathError where
  | account (e : AccountNameError)
  /-- `RuntimeError`: "Could not determine home directory." -/
  | noHome
  deriving DecidableEq, Repr

/-- `resolve_state_dir()`, with the variable `STATE_DIR`. -/
def resolveStateDir (home : String → Option String) (repo : RepoRoot) (stateDir : Option String) :
    Except LockPathError PosixPath :=
  match (PosixPath.parse (stateDir.getD "strategy_state")).expandUser home with
  | none => .error .noHome
  | some path => .ok (repo.resolve path)

/-- `_lock_dir()`. -/
def lockDir (home : String → Option String) (repo : RepoRoot) (stateDir : Option String) :
    Except LockPathError PosixPath := do
  let dir ← resolveStateDir home repo stateDir
  pure (dir.join (.parse "account_locks"))

/-- `lock_path_for_account`. -/
def lockPathForAccount (S : PyStr) (home : String → Option String) (repo : RepoRoot)
    (stateDir : Option String) (accountName : String) : Except LockPathError PosixPath := do
  let safeAccount ← (normalizeAlpacaAccountName S accountName).mapError .account
  let dir ← lockDir home repo stateDir
  pure (dir.join (.parse (safeAccount ++ ".lock")))

/-! ## Agreement -/

/-- The script prints a path, and the module resolves one, that lead to the same file. -/
def PathsAgree (S : PyStr) (home : String → Option String) (repo : RepoRoot)
    (stateDir : Option String) (accountName : String) : Prop :=
  ∃ path, lockPathForAccount S home repo stateDir accountName = .ok path ∧
    (PosixPath.parse (lockFilePath repo stateDir (some accountName))).SameFile path

/-- A value of `STATE_DIR` that both read alike: it is not empty, and if it is relative and its
first component is a tilde with the name of a user, then the home directory of this user is the
directory of that very name in the repository. -/
structure RepoRoot.ReadAlike (repo : RepoRoot) (home : String → Option String) (dir : String) :
    Prop where
  nonempty : dir ≠ ""
  home : ∀ user rest, PosixPath.parse dir = ⟨false, ('~' :: user) :: rest⟩ →
    ∃ homeDir, PosixPath.homeOf home user = some homeDir ∧
      repo.resolve (.parse homeDir) = repo.resolve ⟨false, ['~' :: user]⟩

section Agreement

variable {S : PyStr} {home : String → Option String} {repo : RepoRoot} {stateDir : Option String}
  {accountName account : String} {path q : PosixPath}

/-- What is below the repository, or absolute, is absolute. -/
lemma RepoRoot.absolute_resolve (repo : RepoRoot) (path : PosixPath) :
    (repo.resolve path).absolute = true := by
  unfold resolve
  split
  · assumption
  · next h =>
    rw [PosixPath.join, if_neg h]
    simpa [PosixPath.parse] using repo.absolute

/-- A relative path below the repository. -/
lemma RepoRoot.resolve_relative (repo : RepoRoot) (parts : List (List Char)) :
    repo.resolve ⟨false, parts⟩ = ⟨true, (PosixPath.parse repo.text).parts ++ parts⟩ := by
  have habsolute : (PosixPath.parse repo.text).absolute = true := by
    simpa [PosixPath.parse] using repo.absolute
  rw [resolve, if_neg Bool.false_ne_true, PosixPath.join, if_neg Bool.false_ne_true, habsolute]

/-- Components below a path. -/
lemma RepoRoot.resolve_append (repo : RepoRoot) (path : PosixPath) (rest : List (List Char)) :
    repo.resolve ⟨path.absolute, path.parts ++ rest⟩ =
      ⟨true, (repo.resolve path).parts ++ rest⟩ := by
  obtain ⟨absolute, parts⟩ := path
  cases absolute with
  | true => rfl
  | false =>
    rw [repo.resolve_relative, repo.resolve_relative]
    simp

/-- A name without a slash is one component. -/
lemma parts_lockName {name : String} (hslash : '/' ∉ name.toList) :
    PosixPath.parse (name ++ ".lock") = ⟨false, [(name ++ ".lock").toList]⟩ := by
  have htext : (name ++ ".lock").toList = name.toList ++ ['.', 'l', 'o', 'c', 'k'] := by
    rw [String.toList_append]
    rfl
  have hnoSlash : '/' ∉ (name ++ ".lock").toList := by
    rw [htext]
    simpa using hslash
  have hne : (name ++ ".lock").toList ≠ [] := by simp [htext]
  have hdot : (name ++ ".lock").toList ≠ ['.'] := by
    intro h
    have hlength := congrArg List.length h
    rw [htext, List.length_append, List.length_cons] at hlength
    simp at hlength
  have habsolute : (name ++ ".lock").toList.head? ≠ some '/' := by
    intro h
    exact hnoSlash (List.mem_of_mem_head? h)
  rw [PosixPath.parse, PosixPath.components_of_no_slash hnoSlash hne hdot,
    decide_eq_false habsolute]

/-- The text of a lock file below an absolute directory. -/
lemma parse_lockFile (hslash : '/' ∉ accountName.toList) {dir : String}
    (hdir : dir.toList.head? = some '/') :
    PosixPath.parse (dir ++ "/account_locks/" ++ accountName ++ ".lock") =
      ⟨true, PosixPath.components dir.toList ++
        ["account_locks".toList, (accountName ++ ".lock").toList]⟩ := by
  have hname : PosixPath.components (accountName ++ ".lock").toList =
      [(accountName ++ ".lock").toList] := congrArg PosixPath.parts (parts_lockName hslash)
  have hlocks : PosixPath.components "account_locks".toList = ["account_locks".toList] := by decide
  have htext : (dir ++ "/account_locks/" ++ accountName ++ ".lock").toList = dir.toList ++
      '/' :: ("account_locks".toList ++ '/' :: (accountName ++ ".lock").toList) := by
    simp
  have habsolute : (dir ++ "/account_locks/" ++ accountName ++ ".lock").toList.head? =
      some '/' := by
    rw [htext, List.head?_append, hdir]
    rfl
  rw [PosixPath.parse, decide_eq_true habsolute, htext, PosixPath.components_append_slash,
    PosixPath.components_append_slash, hname, hlocks]
  rfl

/-- **The script.** What it prints is below the state directory, as its text reads. -/
theorem parse_lockFilePath (repo : RepoRoot) (stateDir : Option String)
    (hslash : '/' ∉ accountName.toList) (hne : accountName ≠ "") :
    PosixPath.parse (lockFilePath repo stateDir (some accountName)) =
      ⟨true, (repo.resolve (.parse (shellDefault stateDir "strategy_state"))).parts ++
        ["account_locks".toList, (accountName ++ ".lock").toList]⟩ := by
  have haccount : shellDefault (some accountName) "alpaca_live_writer" = accountName := if_neg hne
  unfold lockFilePath
  rw [haccount]
  dsimp only
  split
  · next hroot =>
    rw [parse_lockFile hslash hroot, RepoRoot.resolve, PosixPath.parse,
      if_pos (by simpa using hroot)]
  · next hrelative =>
    have hroot : (repo.text ++ "/" ++ shellDefault stateDir "strategy_state").toList.head? =
        some '/' := by
      rw [String.toList_append, String.toList_append, List.append_assoc, List.head?_append,
        repo.absolute]
      rfl
    have hparts : (repo.text ++ "/" ++ shellDefault stateDir "strategy_state").toList =
        repo.text.toList ++ '/' :: (shellDefault stateDir "strategy_state").toList := by
      simp
    have hrel : PosixPath.parse (shellDefault stateDir "strategy_state") =
        ⟨false, PosixPath.components (shellDefault stateDir "strategy_state").toList⟩ := by
      rw [PosixPath.parse, decide_eq_false hrelative]
    rw [parse_lockFile hslash hroot, hparts, PosixPath.components_append_slash, hrel,
      repo.resolve_relative]
    rfl

/-- **The module.** What it resolves is below the state directory, with its tilde expanded. -/
theorem lockPathForAccount_eq_ok (hslash : '/' ∉ account.toList)
    (h : normalizeAlpacaAccountName S accountName = .ok account) :
    lockPathForAccount S home repo stateDir accountName = .ok q ↔
      ∃ path, (PosixPath.parse (stateDir.getD "strategy_state")).expandUser home = some path ∧
        q = ⟨true, (repo.resolve path).parts ++
          ["account_locks".toList, (account ++ ".lock").toList]⟩ := by
  have hlocks : PosixPath.parse "account_locks" = ⟨false, ["account_locks".toList]⟩ := by decide
  unfold lockPathForAccount lockDir resolveStateDir
  simp only [h, Except.mapError, bind, Except.bind, parts_lockName hslash, hlocks]
  cases (PosixPath.parse (stateDir.getD "strategy_state")).expandUser home with
  | none => simp
  | some path =>
    have habsolute := repo.absolute_resolve path
    simp only [pure, Except.pure, PosixPath.join, Bool.false_eq_true, if_false, habsolute,
      Except.ok.injEq, List.append_assoc, List.cons_append, List.nil_append, Option.some.injEq]
    constructor
    · rintro rfl
      exact ⟨path, rfl, rfl⟩
    · rintro ⟨_, rfl, rfl⟩
      rfl

/-- A text is read alike exactly when its expansion resolves to what the text itself does. -/
theorem RepoRoot.expand_iff {dir : String} (hne : dir ≠ "") :
    (∃ path, (PosixPath.parse dir).expandUser home = some path ∧
      repo.resolve path = repo.resolve (.parse dir)) ↔ repo.ReadAlike home dir := by
  by_cases htilde : ∃ user rest, PosixPath.parse dir = ⟨false, ('~' :: user) :: rest⟩
  · obtain ⟨user, rest, hdir⟩ := htilde
    rw [hdir]
    constructor
    · rintro ⟨path, hpath, hresolve⟩
      refine ⟨hne, ?_⟩
      intro user' rest' hdir'
      rw [hdir] at hdir'
      cases hdir'
      obtain ⟨homeDir, hhome, rfl⟩ := Option.map_eq_some_iff.mp hpath
      refine ⟨homeDir, hhome, ?_⟩
      rw [repo.resolve_append, repo.resolve_relative] at hresolve
      have hparts := congrArg PosixPath.parts hresolve
      rw [← List.singleton_append, ← List.append_assoc] at hparts
      rw [repo.resolve_relative]
      exact PosixPath.ext (repo.absolute_resolve _) (List.append_cancel_right hparts)
    · intro h
      obtain ⟨homeDir, hhome, hresolve⟩ := h.home user rest hdir
      refine ⟨_, Option.map_eq_some_iff.mpr ⟨homeDir, hhome, rfl⟩, ?_⟩
      rw [repo.resolve_append, hresolve, repo.resolve_relative, repo.resolve_relative]
      simp
  · have hnone : ∀ user rest, PosixPath.parse dir ≠ ⟨false, ('~' :: user) :: rest⟩ :=
      fun user rest hdir => htilde ⟨user, rest, hdir⟩
    rw [PosixPath.expandUser_of_no_tilde hnone]
    refine iff_of_true ⟨_, rfl, rfl⟩ ⟨hne, ?_⟩
    intro user rest hdir
    exact absurd hdir (hnone user rest)

/-- A name that is accepted is not empty, and neither it nor its normal form has a slash. -/
lemma no_slash_of_normalize (hS : S.KeepsSlashes)
    (h : normalizeAlpacaAccountName S accountName = .ok account) :
    accountName ≠ "" ∧ '/' ∉ accountName.toList ∧ '/' ∉ account.toList := by
  unfold normalizeAlpacaAccountName at h
  dsimp only at h
  split at h
  · cases h
  · next hne =>
    split at h
    · cases h
    · next hsafe =>
      split at h
      · cases h
        simp only [not_or] at hsafe
        refine ⟨?_, ?_, ?_⟩
        · rintro rfl
          rw [hS.empty] at hne
          exact hne rfl
        · intro hmem
          exact hsafe.2.1 (List.mem_map.mpr ⟨'/', hS.slash _ hmem, by decide⟩)
        · rw [String.toList_ofList]
          exact hsafe.2.1
      · cases h

/-- The two paths lead to the same file exactly when the name is a normalised one, and the expanded
state directory resolves to the one that the script reads. -/
lemma pathsAgree_iff_resolve (hS : S.KeepsSlashes)
    (h : normalizeAlpacaAccountName S accountName = .ok account) :
    PathsAgree S home repo stateDir accountName ↔ accountName = account ∧
      ∃ path, (PosixPath.parse (stateDir.getD "strategy_state")).expandUser home = some path ∧
        repo.resolve path = repo.resolve (.parse (shellDefault stateDir "strategy_state")) := by
  obtain ⟨hne, hslash, hslash'⟩ := no_slash_of_normalize hS h
  unfold PathsAgree
  simp only [PosixPath.sameFile_iff, parse_lockFilePath repo stateDir hslash hne,
    lockPathForAccount_eq_ok hslash' h]
  constructor
  · rintro ⟨_, ⟨path, hpath, rfl⟩, heq⟩
    obtain ⟨hdir, hlast⟩ := List.append_inj' (congrArg PosixPath.parts heq) rfl
    rw [List.cons.injEq, List.cons.injEq, String.toList_append, String.toList_append] at hlast
    refine ⟨String.toList_injective (List.append_cancel_right hlast.2.1), path, hpath, ?_⟩
    exact PosixPath.ext ((repo.absolute_resolve _).trans (repo.absolute_resolve _).symm) hdir.symm
  · rintro ⟨rfl, path, hpath, hdir⟩
    exact ⟨_, ⟨path, hpath, rfl⟩, by rw [hdir]⟩

/-- The default directory has no tilde. -/
lemma expandUser_default (home : String → Option String) :
    (PosixPath.parse "strategy_state").expandUser home = some (.parse "strategy_state") := by
  refine PosixPath.expandUser_of_no_tilde ?_
  intro user rest hdefault
  have hhead : (PosixPath.parse "strategy_state").parts.head?.bind List.head? = some 's' := by
    decide
  rw [hdefault] at hhead
  simp at hhead

/-- The empty text names the repository, which is not its default directory. -/
lemma resolve_empty_ne_default (hpath : (PosixPath.parse "").expandUser home = some path) :
    repo.resolve path ≠ repo.resolve (.parse "strategy_state") := by
  have hparse : PosixPath.parse "" = ⟨false, []⟩ := by decide
  have hdefault : PosixPath.parse "strategy_state" = ⟨false, ["strategy_state".toList]⟩ := by
    decide
  rw [hparse, PosixPath.expandUser_of_no_tilde (by simp)] at hpath
  cases hpath
  rw [hdefault, repo.resolve_relative, repo.resolve_relative]
  simp

/-- **Lock files.** For every value of `STATE_DIR` and every accepted account name, the path that
the script prints and the one that the module resolves lead to the same file exactly when the name
is a normalised one, and `STATE_DIR` is unset or read alike. -/
theorem pathsAgree_iff (hS : S.KeepsSlashes) (home : String → Option String) (repo : RepoRoot)
    (stateDir : Option String) (h : normalizeAlpacaAccountName S accountName = .ok account) :
    PathsAgree S home repo stateDir accountName ↔
      accountName = account ∧ ∀ dir, stateDir = some dir → repo.ReadAlike home dir := by
  rw [pathsAgree_iff_resolve hS h]
  refine and_congr_right fun _ => ?_
  cases stateDir with
  | none => exact iff_of_true ⟨_, expandUser_default home, rfl⟩ nofun
  | some dir =>
    by_cases hempty : dir = ""
    · subst hempty
      refine iff_of_false ?_ fun hread => (hread "" rfl).nonempty rfl
      rintro ⟨path, hpath, hresolve⟩
      exact resolve_empty_ne_default hpath hresolve
    · have hdir : shellDefault (some dir) "strategy_state" = dir := if_neg hempty
      rw [hdir, Option.getD_some, repo.expand_iff hempty]
      constructor
      · rintro hread _ ⟨⟩
        exact hread
      · intro hread
        exact hread dir rfl

end Agreement

/-! ## An empty `STATE_DIR` -/

/-- A repository at `/repo`. -/
def repoRoot : RepoRoot := ⟨"/repo", by decide⟩

/-- Every home directory is `/root`. -/
def rootHome : String → Option String := fun _ => some "/root"

/-- With an empty `STATE_DIR` the script prints a path that the module does not resolve. -/
theorem not_pathsAgree_empty :
    normalizeAlpacaAccountName .ascii "alpaca_live_writer" = .ok "alpaca_live_writer" ∧
      ¬PathsAgree .ascii rootHome repoRoot (some "") "alpaca_live_writer" := by
  refine ⟨by decide, ?_⟩
  rintro ⟨path, hpath, hsame⟩
  rw [PosixPath.sameFile_iff] at hsame
  have hscript : (PosixPath.parse
      (lockFilePath repoRoot (some "") (some "alpaca_live_writer"))).parts.length = 4 := by decide
  have hmodule : (lockPathForAccount .ascii rootHome repoRoot (some "")
      "alpaca_live_writer").map (fun path => path.parts.length) = .ok 3 := by decide
  rw [hpath, ← hsame] at hmodule
  simp [Except.map, hscript] at hmodule

/-- With a relative `STATE_DIR` they agree. -/
theorem pathsAgree_iff_relative :
    PathsAgree .ascii rootHome repoRoot (some "state") "alpaca_live_writer" := by
  have hname : normalizeAlpacaAccountName .ascii "alpaca_live_writer" =
      .ok "alpaca_live_writer" := by decide
  refine (pathsAgree_iff PyStr.ascii_keepsSlashes rootHome repoRoot (some "state") hname).mpr
    ⟨rfl, ?_⟩
  rintro _ ⟨⟩
  refine ⟨by decide, fun user rest hdir => ?_⟩
  have hhead : (PosixPath.parse "state").parts.head?.bind List.head? = some 's' := by decide
  rw [hdir] at hhead
  simp at hhead

end KeelTrader.Core
