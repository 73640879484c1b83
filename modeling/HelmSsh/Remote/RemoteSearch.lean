/-
# Searching a remote directory

`sftp_search_file` of `src-tauri/src/remote/runtime_sftp.rs` with `search_remote_file_with_find`,
`search_entry` and `join_remote_path` of `src-tauri/src/remote/sftp.rs`.  The remote `find` is
asked first; where it gives no answer, the directories are read one after the other.

A directory is known by the names that lead to it from the root (`Tree`).  The names of the server
are octets (`Server`); the client reads what it is sent with `String::from_utf8_lossy`, the names in
a directory (`Server.view`) as well as the path that `find` prints.  What is outside of the program
is a parameter with what is promised of it (`RemoteShell`): `find` looks at the directory it is
given first, then at what is below it in an order of its own, matches the last name of each with
`fnmatch` and prints the first that matches.  How the letters are made small is a parameter too.

* `loop_ends` — the search through the directories ends.
* `found_of_searchDirs` — what it gives is an entry that is listed below the directory, with the
  keyword in its name; `entry_of_view`: where names are UTF-8, the server has that entry.
* `sftpSearchFile_exact` — when what `find` gives is an entry of the server.
-/

import HelmSsh.Remote.ShellCommand
import HelmSsh.Trim
import HelmSsh.Utf8.Strings
import Mathlib.Data.List.Flatten
import Mathlib.Data.List.Infix
import Mathlib.Data.List.TakeWhile

namespace HelmSsh
namespace Remote
namespace RemoteSearch

open Frontend.RemotePath (partsOf joinParts normalizePath Proper)
open SftpPath (normalizeRemotePath resolve)
open ShellCommand (bare oper quotedWord buildRemoteFindCommand)
open ShellWords (Token tokenize)

abbrev Name := List Char

/-- What is in the directory that the names lead to, with whether each entry is a directory itself.
A name is shown as a text. -/
structure Tree (ν : Type) (text : ν → Name) where
  readDir : List ν → Option (List (ν × Bool))
  proper : ∀ {names entries name isDirectory}, readDir names = some entries →
    (name, isDirectory) ∈ entries → Proper (text name)

namespace Tree

variable {ν : Type} {text : ν → Name}

/-- The directories from `base` on downwards. -/
inductive Directory (t : Tree ν text) (base : List ν) : List ν → Prop
  | base : Directory t base base
  | inside {names entries name} : Directory t base names → t.readDir names = some entries →
      (name, true) ∈ entries → Directory t base (names ++ [name])

/-- The names lead to an entry strictly below `base`. -/
def Entry (t : Tree ν text) (base names : List ν) : Prop :=
  ∃ directory entries name isDirectory, t.Directory base directory ∧
    t.readDir directory = some entries ∧ (name, isDirectory) ∈ entries ∧ names = directory ++ [name]

end Tree

/-- The path of what the names lead to. -/
def pathOf (names : List Name) : List Char :=
  '/' :: joinParts names

/-- The last of the names. -/
def baseName (names : List Name) : Name :=
  names.getLast?.getD ['/']

/-- What `read_dir` gives the client. -/
abbrev RemoteTree := Tree Name id

/-- The path is one of an entry strictly below `base` with the keyword in its last name. -/
def RemoteTree.Found (t : RemoteTree) (lower : List Char → List Char) (base : List Name)
    (keyword path : List Char) : Prop :=
  ∃ names, t.Entry base names ∧ keyword <:+: lower (baseName names) ∧ path = pathOf names

/-! ### Names in octets -/

abbrev Octets := List UInt8

/-- A text in UTF-8. -/
def octets (text : List Char) : Octets :=
  text.flatMap String.utf8EncodeChar

/-- `String::from_utf8_lossy`. -/
def shown (name : Octets) : List Char :=
  (Utf8.fromUtf8Lossy name).text.toList

/-- The files of the server. -/
abbrev Server := Tree Octets shown

/-- The path of what the names lead to. -/
def octetsOf (names : List Octets) : Octets :=
  octets ['/'] ++ List.intercalate (octets ['/']) names

/-- The last of the names. -/
def baseOctets (names : List Octets) : Octets :=
  names.getLast?.getD (octets ['/'])

namespace Server

/-- What the client sees: it asks with a text and reads each name that is sent. -/
def view (server : Server) : RemoteTree where
  readDir names := (server.readDir (names.map octets)).map fun entries =>
    entries.map fun entry => (shown entry.1, entry.2)
  proper := by
    intro names entries name isDirectory hread hmem
    obtain ⟨listed, hlisted, rfl⟩ := Option.map_eq_some_iff.mp hread
    obtain ⟨⟨raw, isDirectory'⟩, hraw, heq⟩ := List.mem_map.mp hmem
    obtain ⟨rfl, rfl⟩ := Prod.mk.inj heq
    exact server.proper hlisted hraw

/-- The path leads to an entry of the server strictly below `base`, with the keyword in its last
name. -/
def Found (server : Server) (lower : List Char → List Char) (base : List Name)
    (keyword path : List Char) : Prop :=
  ∃ names, server.Entry (base.map octets) (names.map octets) ∧
    keyword <:+: lower (baseName names) ∧ path = pathOf names

end Server

/-! ### The remote command -/

/-- What is read of `ExecResult`. -/
structure ExecResult where
  stdout : List Char
  timedOut : Bool

/-- The words of the command line that asks `find`. -/
def findWords (basePath pattern : List Char) : List Token :=
  [bare "command", bare "-v", bare "find", oper ">", bare "/dev/null", .ioNumber ['2'], oper ">&",
    bare "1", oper "&&", bare "find", quotedWord basePath, bare "-iname", quotedWord pattern,
    bare "-print", bare "-quit", .ioNumber ['2'], oper ">", bare "/dev/null"]

/-- The first that `find` looks at and that matches. -/
def firstMatch (fnmatch : List Char → Octets → Bool) (below : List Octets → List (List Octets))
    (base : List Octets) (pattern : List Char) : Option (List Octets) :=
  (base :: below base).find? fun names => fnmatch pattern (baseOctets names)

/-- What `-print -quit` prints. -/
def printed (fnmatch : List Char → Octets → Bool) (below : List Octets → List (List Octets))
    (base : List Octets) (pattern : List Char) : Octets :=
  match firstMatch fnmatch below base pattern with
  | some names => octetsOf names ++ octets ['\n']
  | none => []

/-- A remote shell over the files.  `find` may be missing, be stopped or find nothing: then nothing
is printed. -/
structure RemoteShell (server : Server) where
  fnmatch : List Char → Octets → Bool
  below : List Octets → List (List Octets)
  below_sound : ∀ {base names}, names ∈ below base → server.Entry base names
  exec : List Char → Option ExecResult
  exec_find : ∀ {line base pattern result}, (∀ name ∈ base, Proper name) →
    tokenize line = some (findWords (pathOf base) pattern) → exec line = some result →
      result.timedOut = false →
        result.stdout = [] ∨ result.stdout = shown (printed fnmatch below (base.map octets) pattern)

/-- `str::trim`. -/
def trim (text : List Char) : List Char :=
  Trim.trim Text.isWhitespace text

/-- A line without the carriage return before its end. -/
def stripReturn (line : List Char) : List Char :=
  if line.getLast? = some '\r' then line.dropLast else line

/-- `str::lines`. -/
def lines (text : List Char) : List (List Char) :=
  let pieces := text.splitOn '\n'
  pieces.dropLast.map stripReturn ++ (pieces.getLast?.filter fun line => line ≠ []).toList

/-- `search_remote_file_with_find`. -/
def searchRemoteFileWithFind (exec : List Char → Option ExecResult) (basePath : String)
    (keyword : List Char) : Option (Option (List Char)) :=
  let command := buildRemoteFindCommand basePath keyword
  match exec command with
  | none => none
  | some result =>
    if result.timedOut then some none
    else some ((((lines result.stdout).map trim).find? fun line => line ≠ []).map fun line =>
      (normalizeRemotePath (String.ofList line)).toList)

/-! ### The directories one after the other -/

def maxSftpSearchConcurrency : ℕ := 12
def maxSftpSearchDirs : ℕ := 800
def maxSftpSearchEntries : ℕ := 6000

/-- `SearchEntry`. -/
structure SearchEntry where
  name : Name
  path : List Char
  isDirectory : Bool

/-- `join_remote_path`. -/
def joinRemotePath (parent name : List Char) : List Char :=
  if parent = ['/'] then '/' :: name
  else (parent.reverse.dropWhile (· = '/')).reverse ++ '/' :: name

/-- `search_entry`. -/
def searchEntry (parent : List Char) (entry : Name × Bool) : SearchEntry :=
  { name := entry.1, path := joinRemotePath parent entry.1, isDirectory := entry.2 }

/-- The variables of the loop. -/
structure Search where
  queue : List (List Char)
  visited : List (List Char)
  scannedEntries : ℕ

/-- Directories are compared as texts. -/
local instance lawfulDirectories : LawfulBEq (List Char) := inferInstance

/-- The directories that are read next, with what is left of the queue and what is visited then. -/
def takeRequests (requests visited : List (List Char)) : List (List Char) →
    List (List Char) × List (List Char) × List (List Char)
  | [] => (requests, [], visited)
  | directory :: queue =>
    if requests.length < maxSftpSearchConcurrency then
      if directory ∈ visited then takeRequests requests visited queue
      else takeRequests (requests ++ [directory]) (visited ++ [directory]) queue
    else (requests, directory :: queue, visited)

section Loop

variable (t : RemoteTree) (lower : List Char → List Char) (keyword : List Char)

/-- A directory that was not visited is read later. -/
def pushDirectory (directory : List Char) (entry : SearchEntry) (s : Search) : Search :=
  if entry.isDirectory ∧ entry.path ≠ directory ∧ entry.path ∉ s.visited then
    { s with queue := s.queue ++ [entry.path] }
  else s

/-- The entries of one directory: a match ends the search (`error`). -/
def scanEntries (directory : List Char) : List SearchEntry → Search → Except (List Char) Search
  | [], s => .ok s
  | entry :: rest, s =>
    let s := { s with scannedEntries := s.scannedEntries + 1 }
    if keyword <:+: lower entry.name then .error entry.path
    else
      let s := pushDirectory directory entry s
      if maxSftpSearchEntries ≤ s.scannedEntries then .ok s else scanEntries directory rest s

/-- What was read of each directory. -/
def scanAll : List (List Char) → Search → Except (List Char) Search
  | [], s => .ok s
  | directory :: rest, s =>
    match t.readDir (partsOf directory) with
    | none => scanAll rest s
    | some entries =>
      match scanEntries lower keyword directory (entries.map (searchEntry directory)) s with
      | .error path => .error path
      | .ok s => scanAll rest s

/-- The `while` loop. -/
def loop : ℕ → Search → Option (Option (List Char))
  | 0, _ => none
  | fuel + 1, s =>
    if s.queue ≠ [] ∧ s.visited.length < maxSftpSearchDirs ∧
        s.scannedEntries < maxSftpSearchEntries then
      let (requests, queue, visited) := takeRequests [] s.visited s.queue
      let s := { s with queue, visited }
      if requests = [] then loop fuel s
      else
        match scanAll t lower keyword requests s with
        | .error path => some (some path)
        | .ok s => loop fuel s
    else some none

/-- The search through the directories. -/
def searchDirs (basePath : List Char) : Option (List Char) :=
  (loop t lower keyword (maxSftpSearchDirs + 2) ⟨[basePath], [], 0⟩).join

end Loop

/-- What is searched for. -/
def keywordOf (lower : List Char → List Char) (query : List Char) : List Char :=
  lower (trim query)

/-- `sftp_search_file`, of an open session. -/
def sftpSearchFile {server : Server} (shell : RemoteShell server) (lower : List Char → List Char)
    (basePath : String) (query : List Char) : Option (List Char) :=
  let keyword := keywordOf lower query
  if keyword = [] then none
  else
    let basePath := normalizeRemotePath basePath
    match searchRemoteFileWithFind shell.exec basePath keyword with
    | some (some path) => some path
    | _ => searchDirs server.view lower keyword basePath.toList

/-! ### Paths of proper names -/

variable {t : RemoteTree} {base names directory : List Name} {name : Name}

theorem partsOf_pathOf (h : ∀ name ∈ names, Proper name) : partsOf (pathOf names) = names := by
  have hslash := Frontend.RemotePath.partsOf_append_slash [] (joinParts names)
  rw [List.nil_append] at hslash
  rw [pathOf, hslash]
  exact Frontend.RemotePath.partsOf_joinParts h

theorem pathOf_concat (h : ∀ name ∈ names, Proper name) (hname : Proper name) (hnil : names ≠ []) :
    pathOf (names ++ [name]) = pathOf names ++ '/' :: name := by
  have hone : joinParts [name] = name := List.intercalate_singleton
  rw [pathOf, SftpPath.joinParts_append h hnil (List.forall_mem_singleton.mpr hname)
    (List.cons_ne_nil _ _), hone]
  rfl

theorem getLast?_pathOf {c : Char} (h : ∀ name ∈ names, Proper name) (hnil : names ≠ [])
    (hc : (pathOf names).getLast? = some c) : c ≠ '/' := by
  obtain ⟨front, name, rfl⟩ := List.eq_nil_or_concat' names |>.resolve_left hnil
  have hname := h name (List.mem_append_right _ (List.mem_singleton_self _))
  have hend : ∃ before, pathOf (front ++ [name]) = before ++ name := by
    by_cases hfront : front = []
    · subst hfront
      exact ⟨['/'], congrArg (List.cons '/') List.intercalate_singleton⟩
    · refine ⟨pathOf front ++ ['/'], ?_⟩
      rw [pathOf_concat (fun n hn => h n (List.mem_append_left _ hn)) hname hfront,
        List.append_assoc, List.singleton_append]
  obtain ⟨before, hbefore⟩ := hend
  rw [hbefore, List.getLast?_append_of_ne_nil _ hname.ne_nil] at hc
  rintro rfl
  exact hname.no_slash (List.mem_of_getLast? hc)

/-- **A name joined to a path is one name more.** -/
theorem joinRemotePath_pathOf (h : ∀ name ∈ names, Proper name) (hname : Proper name) :
    joinRemotePath (pathOf names) name = pathOf (names ++ [name]) := by
  by_cases hnil : names = []
  · subst hnil
    have hroot : pathOf [] = ['/'] := rfl
    rw [joinRemotePath, if_pos hroot]
    exact congrArg (List.cons '/') List.intercalate_singleton.symm
  · have hroot : pathOf names ≠ ['/'] := by
      intro hroot
      have hparts := congrArg partsOf hroot
      rw [partsOf_pathOf h] at hparts
      exact hnil hparts
    have hlast : ∀ c, (pathOf names).reverse.head? = some c → decide (c = '/') = false := by
      intro c hc
      rw [List.head?_reverse] at hc
      exact decide_eq_false (getLast?_pathOf h hnil hc)
    rw [joinRemotePath, if_neg hroot, Trim.dropWhile_eq_self hlast, List.reverse_reverse,
      pathOf_concat h hname hnil]

namespace Tree

variable {ν : Type} {text : ν → Name} {t : Tree ν text} {base names directory : List ν}

theorem Directory.proper (h : t.Directory base directory)
    (hbase : ∀ name ∈ base, Proper (text name)) : ∀ name ∈ directory, Proper (text name) := by
  induction h with
  | base => exact hbase
  | inside _ hread hmem ih =>
    exact List.forall_mem_append.mpr ⟨ih, List.forall_mem_singleton.mpr (t.proper hread hmem)⟩

theorem Directory.length_le (h : t.Directory base directory) : base.length ≤ directory.length := by
  induction h with
  | base => exact Nat.le_refl _
  | inside _ _ _ ih =>
    rw [List.length_append]
    omega

theorem Entry.proper (h : t.Entry base names) (hbase : ∀ name ∈ base, Proper (text name)) :
    ∀ name ∈ names, Proper (text name) := by
  obtain ⟨directory, entries, name, isDirectory, hdirectory, hread, hmem, rfl⟩ := h
  exact List.forall_mem_append.mpr
    ⟨hdirectory.proper hbase, List.forall_mem_singleton.mpr (t.proper hread hmem)⟩

/-- **An entry is strictly below.** -/
theorem Entry.ne_base (h : t.Entry base names) : names ≠ base := by
  obtain ⟨directory, entries, name, isDirectory, hdirectory, -, -, rfl⟩ := h
  have hle := hdirectory.length_le
  intro hbase
  have hlen := congrArg List.length hbase
  rw [List.length_append, List.length_singleton] at hlen
  omega

end Tree

/-! ### The search through the directories -/

section Loop

variable {lower : List Char → List Char} {keyword : List Char}

/-- The path of a directory from `base` on downwards. -/
def IsDirectory (t : RemoteTree) (base : List Name) (path : List Char) : Prop :=
  ∃ names, t.Directory base names ∧ path = pathOf names

/-- Directories stand in the queue. -/
def Queued (t : RemoteTree) (base : List Name) (s : Search) : Prop :=
  ∀ path ∈ s.queue, IsDirectory t base path

/-- A match is an entry with the keyword in its name, and otherwise directories stand in the
queue. -/
structure Sound (t : RemoteTree) (lower : List Char → List Char) (base : List Name)
    (keyword : List Char) (result : Except (List Char) Search) : Prop where
  found : ∀ path, result = .error path → t.Found lower base keyword path
  queued : ∀ s, result = .ok s → Queued t base s

theorem Sound.ok {s : Search} (h : Queued t base s) : Sound t lower base keyword (.ok s) where
  found _ heq := by cases heq
  queued _ heq := Except.ok.inj heq ▸ h

theorem Sound.error {path : List Char} (h : t.Found lower base keyword path) :
    Sound t lower base keyword (.error path) where
  found _ heq := Except.error.inj heq ▸ h
  queued _ heq := by cases heq

theorem queued_pushDirectory {path : List Char} {entry : SearchEntry} {s : Search}
    (hentry : entry.isDirectory = true → IsDirectory t base entry.path) (hs : Queued t base s) :
    Queued t base (pushDirectory path entry s) := by
  rw [pushDirectory]
  split_ifs with hpush
  · exact List.forall_mem_append.mpr ⟨hs, List.forall_mem_singleton.mpr (hentry hpush.1)⟩
  · exact hs

/-- **The entries of a directory.** -/
theorem sound_scanEntries (hbase : ∀ name ∈ base, Proper name)
    (hdirectory : t.Directory base directory) {listed entries : List (Name × Bool)}
    (hread : t.readDir directory = some listed) (hlisted : ∀ entry ∈ entries, entry ∈ listed)
    {s : Search} (hs : Queued t base s) :
    Sound t lower base keyword (scanEntries lower keyword (pathOf directory)
      (entries.map (searchEntry (pathOf directory))) s) := by
  induction entries generalizing s with
  | nil => exact .ok hs
  | cons entry entries ih =>
    obtain ⟨hentry, hentries⟩ := List.forall_mem_cons.mp hlisted
    obtain ⟨name, isDirectory⟩ := entry
    have hpath : joinRemotePath (pathOf directory) name = pathOf (directory ++ [name]) :=
      joinRemotePath_pathOf (hdirectory.proper hbase) (t.proper hread hentry)
    have hpush : isDirectory = true → IsDirectory t base (joinRemotePath (pathOf directory) name) :=
      fun hdir => ⟨_, .inside hdirectory hread (hdir ▸ hentry), hpath⟩
    rw [List.map_cons, scanEntries]
    split_ifs with hcontains
    · refine .error ⟨_, ⟨directory, listed, name, isDirectory, hdirectory, hread, hentry, rfl⟩, ?_,
        hpath⟩
      rw [baseName, List.getLast?_concat]
      exact hcontains
    · have hqueued : Queued t base (pushDirectory (pathOf directory)
          (searchEntry (pathOf directory) (name, isDirectory))
          { s with scannedEntries := s.scannedEntries + 1 }) := queued_pushDirectory hpush hs
      dsimp only
      split_ifs with hfull
      · exact .ok hqueued
      · exact ih hentries hqueued

/-- **What was read of the directories.** -/
theorem sound_scanAll (hbase : ∀ name ∈ base, Proper name) {requests : List (List Char)}
    (hrequests : ∀ path ∈ requests, IsDirectory t base path) {s : Search} (hs : Queued t base s) :
    Sound t lower base keyword (scanAll t lower keyword requests s) := by
  induction requests generalizing s with
  | nil => exact .ok hs
  | cons path requests ih =>
    obtain ⟨⟨directory, hdirectory, rfl⟩, hrest⟩ := List.forall_mem_cons.mp hrequests
    rw [scanAll, partsOf_pathOf (hdirectory.proper hbase)]
    split
    · exact ih hrest hs
    · rename_i entries hread
      have hscan : Sound t lower base keyword (scanEntries lower keyword (pathOf directory)
          (entries.map (searchEntry (pathOf directory))) s) :=
        sound_scanEntries hbase hdirectory hread (fun _ h => h) hs
      split
      · rename_i path hfound
        exact .error (hscan.found path hfound)
      · rename_i s' hnext
        exact ih hrest (hscan.queued s' hnext)

/-- **What is taken from the queue**: directories of it, each new, and what is left is of it too;
with none taken, the queue is empty. -/
theorem takeRequests_spec (requests visited queue : List (List Char)) :
    let taken := takeRequests requests visited queue
    (∀ path ∈ taken.1, path ∈ requests ∨ path ∈ queue) ∧ (∀ path ∈ taken.2.1, path ∈ queue) ∧
      taken.2.2.length + requests.length = visited.length + taken.1.length ∧
      (taken.1 = [] → taken.2.1 = []) := by
  induction queue generalizing requests visited with
  | nil => exact ⟨fun _ h => Or.inl h, fun _ h => h, rfl, fun _ => rfl⟩
  | cons directory queue ih =>
    rw [takeRequests]
    split_ifs with hroom hvisited
    · obtain ⟨htaken, hleft, hlen, hnone⟩ := ih requests visited
      exact ⟨fun path hp => (htaken path hp).imp_right (List.mem_cons_of_mem _),
        fun path hp => List.mem_cons_of_mem _ (hleft path hp), hlen, hnone⟩
    · obtain ⟨htaken, hleft, hlen, hnone⟩ := ih (requests ++ [directory]) (visited ++ [directory])
      rw [List.length_append, List.length_append, List.length_singleton] at hlen
      refine ⟨fun path hp => ?_, fun path hp => List.mem_cons_of_mem _ (hleft path hp), by omega,
        hnone⟩
      rcases htaken path hp with hold | hnew
      · rcases List.mem_append.mp hold with hold | hself
        · exact Or.inl hold
        · exact Or.inr (List.mem_singleton.mp hself ▸ List.mem_cons_self ..)
      · exact Or.inr (List.mem_cons_of_mem _ hnew)
    · refine ⟨fun _ h => Or.inl h, fun _ h => h, rfl, fun hnil => ?_⟩
      obtain rfl : requests = [] := hnil
      exact absurd (by decide) hroom

/-- **The loop gives an entry with the keyword in its name**, whatever its fuel. -/
theorem found_of_loop (hbase : ∀ name ∈ base, Proper name) (fuel : ℕ) {s : Search}
    (hs : Queued t base s) {path : List Char} (h : loop t lower keyword fuel s = some (some path)) :
    t.Found lower base keyword path := by
  induction fuel generalizing s with
  | zero => cases h
  | succ fuel ih =>
    obtain ⟨htaken, hleft, -, -⟩ := takeRequests_spec [] s.visited s.queue
    have hrequests : ∀ path ∈ (takeRequests [] s.visited s.queue).1, IsDirectory t base path :=
      fun path hp => hs path ((htaken path hp).resolve_left List.not_mem_nil)
    have hrest : Queued t base { s with
        queue := (takeRequests [] s.visited s.queue).2.1
        visited := (takeRequests [] s.visited s.queue).2.2 } :=
      fun path hp => hs path (hleft path hp)
    rw [loop] at h
    split_ifs at h with hgoes
    · dsimp only at h
      split_ifs at h with hnone
      · exact ih hrest h
      · have hscan : Sound t lower base keyword (scanAll t lower keyword _ _) :=
          sound_scanAll hbase hrequests hrest
        split at h
        · rename_i path' hfound
          cases h
          exact hscan.found _ hfound
        · rename_i s' hnext
          exact ih (hscan.queued s' hnext) h
    · cases h

/-- What is visited is not taken back by the entries of a directory. -/
theorem visited_scanEntries (path : List Char) (entries : List SearchEntry) {s s' : Search}
    (h : scanEntries lower keyword path entries s = .ok s') : s'.visited = s.visited := by
  induction entries generalizing s with
  | nil => exact Except.ok.inj h ▸ rfl
  | cons entry entries ih =>
    have hpush : ∀ s : Search, (pushDirectory path entry s).visited = s.visited := by
      intro s
      rw [pushDirectory]
      split_ifs
      · rfl
      · rfl
    rw [scanEntries] at h
    split_ifs at h with hcontains
    dsimp only at h
    split_ifs at h
    · exact Except.ok.inj h ▸ hpush _
    · exact (ih h).trans (hpush _)

/-- What is visited is not taken back by what was read. -/
theorem visited_scanAll (requests : List (List Char)) {s s' : Search}
    (h : scanAll t lower keyword requests s = .ok s') : s'.visited = s.visited := by
  induction requests generalizing s with
  | nil => exact Except.ok.inj h ▸ rfl
  | cons path requests ih =>
    rw [scanAll] at h
    split at h
    · exact ih h
    · split at h
      · cases h
      · rename_i s₁ hscan
        exact (ih h).trans (visited_scanEntries path _ hscan)

/-- How often the loop goes round at most. -/
def roundsLeft (s : Search) : ℕ :=
  maxSftpSearchDirs - s.visited.length + if s.queue = [] then 0 else 1

/-- **The loop ends** within its fuel. -/
theorem loop_ends (fuel : ℕ) {s : Search} (h : roundsLeft s < fuel) :
    (loop t lower keyword fuel s).isSome := by
  induction fuel generalizing s with
  | zero => omega
  | succ fuel ih =>
    have hspec := takeRequests_spec [] s.visited s.queue
    rw [loop]
    generalize takeRequests [] s.visited s.queue = taken at hspec ⊢
    obtain ⟨requests, queue, visited⟩ := taken
    obtain ⟨-, -, hlen, hempty⟩ := hspec
    dsimp only at hlen hempty ⊢
    rw [List.length_nil, Nat.add_zero] at hlen
    split_ifs with hgoes hnone
    · refine ih ?_
      obtain ⟨hqueue, hvisited, -⟩ := hgoes
      rw [roundsLeft, if_neg hqueue] at h
      rw [hnone, List.length_nil] at hlen
      rw [roundsLeft, if_pos (hempty hnone)]
      dsimp only
      omega
    · split
      · rfl
      · rename_i s' hscan
        refine ih ?_
        obtain ⟨hqueue, hvisited, -⟩ := hgoes
        have hpos := List.length_pos_of_ne_nil hnone
        have hsame : s'.visited = visited := visited_scanAll _ hscan
        have hone : (if s'.queue = [] then 0 else 1) ≤ 1 := by
          split_ifs
          · exact Nat.zero_le _
          · exact Nat.le_refl _
        rw [roundsLeft, if_neg hqueue] at h
        rw [roundsLeft, hsame]
        omega
    · rfl

/-- **The search through the directories ends**, links that lead back included. -/
theorem searchDirs_ends (basePath : List Char) :
    (loop t lower keyword (maxSftpSearchDirs + 2) ⟨[basePath], [], 0⟩).isSome := by
  refine loop_ends _ ?_
  rw [roundsLeft, if_neg (List.cons_ne_nil _ _)]
  exact Nat.lt_succ_self _

/-- **The search through the directories gives an entry with the keyword in its name.** -/
theorem found_of_searchDirs (hbase : ∀ name ∈ base, Proper name) {path : List Char}
    (h : searchDirs t lower keyword (pathOf base) = some path) :
    t.Found lower base keyword path := by
  refine found_of_loop hbase (maxSftpSearchDirs + 2) (s := ⟨[pathOf base], [], 0⟩) ?_ ?_
  · exact List.forall_mem_singleton.mpr ⟨base, .base, rfl⟩
  · exact Option.join_eq_some_iff.mp h

end Loop

/-! ### What is read of the answer of `find` -/

/-- The first line of a path, without the blanks at its end. -/
def cut (path : List Char) : List Char :=
  trim (path.takeWhile (· ≠ '\n'))

/-- The path is one line that does not end with a blank. -/
def OneLine (path : List Char) : Prop :=
  '\n' ∉ path ∧ ∀ c, path.getLast? = some c → Text.isWhitespace c = false

theorem cut_of_oneLine (h : OneLine (pathOf names)) : cut (pathOf names) = pathOf names := by
  have hline : ∀ c ∈ pathOf names, decide (c ≠ '\n') = true :=
    fun c hc => decide_eq_true fun heq => h.1 (heq ▸ hc)
  have hfirst : ∀ c, (pathOf names).head? = some c → Text.isWhitespace c = false := by
    intro c hc
    obtain rfl := Option.some.inj hc
    decide
  rw [cut, List.takeWhile_eq_self_iff.mpr hline]
  exact Trim.trim_eq_self hfirst h.2

/-- The carriage return before the end of a line is a blank. -/
theorem trim_stripReturn (line : List Char) : trim (stripReturn line) = trim line := by
  rw [stripReturn]
  split_ifs with hreturn
  · obtain ⟨front, rfl⟩ := List.getLast?_eq_some_iff.mp hreturn
    rw [List.dropLast_concat]
    exact (Trim.trim_concat (by decide)).symm
  · rfl

/-- A text with a line break after it starts with its first line. -/
theorem exists_first_line (path : List Char) :
    ∃ more, path ++ ['\n'] = path.takeWhile (· ≠ '\n') ++ '\n' :: more := by
  induction path with
  | nil => exact ⟨[], rfl⟩
  | cons c path ih =>
    by_cases hc : c = '\n'
    · subst hc
      exact ⟨path ++ ['\n'], rfl⟩
    · obtain ⟨more, hmore⟩ := ih
      refine ⟨more, ?_⟩
      rw [List.takeWhile_cons, if_pos (decide_eq_true hc), List.cons_append,
        List.cons_append, hmore]

theorem lines_eq_cons (path : List Char) :
    ∃ rest, lines (path ++ ['\n']) = stripReturn (path.takeWhile (· ≠ '\n')) :: rest := by
  obtain ⟨more, hmore⟩ := exists_first_line path
  have hfirst : '\n' ∉ path.takeWhile (· ≠ '\n') := by
    intro hmem
    have hall := List.all_eq_true.mp List.all_takeWhile _ hmem
    exact of_decide_eq_true hall rfl
  have hsplit : (path ++ ['\n']).splitOn '\n'
      = path.takeWhile (· ≠ '\n') :: more.splitOn '\n' := by
    rw [hmore, List.splitOn_append_cons_self, List.splitOn_eq_singleton hfirst,
      List.singleton_append]
  rw [lines, hsplit, List.dropLast_cons_of_ne_nil (List.splitOn_ne_nil _ _), List.map_cons,
    List.cons_append]
  exact ⟨_, rfl⟩

/-- **What is read of a printed path**: the names before its first line break. -/
theorem search_of_printed (names : List Name) :
    ((((lines (pathOf names ++ ['\n'])).map trim).find? fun line => line ≠ []).map fun line =>
      (normalizeRemotePath (String.ofList line)).toList)
      = some (pathOf (partsOf (cut (pathOf names)))) := by
  obtain ⟨rest, hrest⟩ := lines_eq_cons (pathOf names)
  have hslash : '/' ∈ (pathOf names).takeWhile (· ≠ '\n') := by
    rw [pathOf, List.takeWhile_cons_of_pos (by decide)]
    exact List.mem_cons_self ..
  have hcut : cut (pathOf names) ≠ [] := by
    have hor : '/' ∈ cut (pathOf names) ∨ Text.isWhitespace '/' = true := Trim.mem_trim hslash
    rcases hor with hmem | hblank
    · exact List.ne_nil_of_mem hmem
    · exact absurd hblank (by decide)
  have hfind : ((cut (pathOf names) :: rest.map trim).find? fun line => line ≠ [])
      = some (cut (pathOf names)) := List.find?_cons_of_pos (decide_eq_true hcut)
  rw [hrest, List.map_cons, trim_stripReturn]
  refine (congrArg (Option.map _) hfind).trans ?_
  rw [Option.map_some, SftpPath.toList_normalizeRemotePath, String.toList_ofList]
  rfl

/-! ### What is read back as it is -/

theorem cons_slash_joinParts {parts : List Name} (hnil : parts ≠ []) :
    '/' :: joinParts parts = parts.flatMap (List.cons '/') := by
  induction parts with
  | nil => exact absurd rfl hnil
  | cons part parts ih =>
    by_cases hrest : parts = []
    · subst hrest
      rw [joinParts, List.intercalate_singleton, List.flatMap_singleton]
    · rw [joinParts, List.intercalate_cons_of_ne_nil hrest, List.append_assoc, List.flatMap_cons,
        ← ih hrest]
      rfl

/-- Parts are dropped, and none is put in. -/
theorem normalizeParts_sublist (parts rest : List Name) :
    List.Sublist (Frontend.RemotePath.normalizeParts parts rest) (parts ++ rest) := by
  induction rest generalizing parts with
  | nil => rw [Frontend.RemotePath.normalizeParts, List.append_nil]
  | cons part rest ih =>
    have hrest : List.Sublist (parts ++ rest) (parts ++ part :: rest) :=
      (List.sublist_cons_self _ _).append_left _
    rw [Frontend.RemotePath.normalizeParts]
    split_ifs with hskip hdots
    · exact (ih parts).trans hrest
    · exact (ih parts.dropLast).trans (((List.dropLast_sublist _).append_right _).trans hrest)
    · have hpushed := ih (parts ++ [part])
      rw [List.append_assoc] at hpushed
      exact hpushed

/-- A path that is resolved is not longer. -/
theorem length_pathOf_partsOf (rest : List Char) :
    (pathOf (partsOf ('/' :: rest))).length ≤ ('/' :: rest).length := by
  have hslash : partsOf ('/' :: rest)
      = Frontend.RemotePath.normalizeParts [] (rest.splitOn '/') :=
    Frontend.RemotePath.partsOf_append_slash [] rest
  have hpieces : '/' :: rest = (rest.splitOn '/').flatMap (List.cons '/') := by
    rw [← cons_slash_joinParts (List.splitOn_ne_nil _ _), joinParts, List.intercalate_splitOn]
  rw [hslash]
  by_cases hnil : Frontend.RemotePath.normalizeParts [] (rest.splitOn '/') = []
  · rw [hnil]
    exact Nat.succ_le_succ (Nat.zero_le _)
  · rw [pathOf, cons_slash_joinParts hnil, hpieces]
    exact ((normalizeParts_sublist [] _).flatMap _).length_le

/-- What is cut off a path that starts with a slash leaves the slash. -/
theorem exists_cut_pathOf (names : List Name) : ∃ rest, cut (pathOf names) = '/' :: rest := by
  have hfirst : ∀ text : List Char, ∃ rest, trim ('/' :: text) = '/' :: rest := by
    intro text
    rw [trim, Trim.trim, List.dropWhile_cons_of_neg (by decide), List.reverse_cons,
      List.dropWhile_append]
    split_ifs
    · exact ⟨[], by decide⟩
    · rw [List.reverse_append]
      exact ⟨_, rfl⟩
  rw [cut, pathOf, List.takeWhile_cons_of_pos (by decide)]
  exact hfirst _

theorem cut_sublist (path : List Char) : List.Sublist (cut path) path :=
  (Trim.trim_infix _ _).sublist.trans (List.takeWhile_sublist _)

theorem oneLine_of_cut {path : List Char} (h : cut path = path) : OneLine path := by
  constructor
  · intro hmem
    rw [← h] at hmem
    have hall := List.all_eq_true.mp List.all_takeWhile _ ((Trim.trim_infix _ _).subset hmem)
    exact of_decide_eq_true hall rfl
  · intro c hc
    rw [← h, cut, trim, Trim.trim, List.getLast?_reverse] at hc
    have hnot := List.head?_dropWhile_not Text.isWhitespace
      ((path.takeWhile (· ≠ '\n')).dropWhile Text.isWhitespace).reverse
    rw [hc] at hnot
    exact hnot

/-- **A path of another form is not read back.** -/
theorem oneLine_of_read (h : pathOf (partsOf (cut (pathOf names))) = pathOf names) :
    OneLine (pathOf names) := by
  obtain ⟨rest, hrest⟩ := exists_cut_pathOf names
  have hle := length_pathOf_partsOf rest
  rw [← hrest, h] at hle
  exact oneLine_of_cut ((cut_sublist _).eq_of_length_le hle)

/-! ### Texts and octets -/

theorem shown_octets (text : List Char) : shown (octets text) = text := by
  rw [shown, octets, Utf8.text_fromUtf8Lossy, String.toList_ofList]

theorem map_octets_injective : Function.Injective (List.map octets) :=
  List.map_injective_iff.mpr (Function.LeftInverse.injective shown_octets)

theorem octets_append (first second : List Char) :
    octets (first ++ second) = octets first ++ octets second :=
  List.flatMap_append

theorem octetsOf_map (names : List Name) : octetsOf (names.map octets) = octets (pathOf names) := by
  have hjoin : List.intercalate (octets ['/']) (names.map octets) = octets (joinParts names) := by
    induction names with
    | nil => rfl
    | cons name names ih =>
      by_cases hnil : names = []
      · subst hnil
        rw [List.map_singleton, List.intercalate_singleton, joinParts, List.intercalate_singleton]
      · rw [List.map_cons, List.intercalate_cons_of_ne_nil (List.map_eq_nil_iff.not.mpr hnil), ih,
          joinParts, joinParts, List.intercalate_cons_of_ne_nil hnil, octets_append, octets_append]
  rw [octetsOf, hjoin]
  exact (octets_append ['/'] _).symm

theorem baseOctets_map (names : List Name) :
    baseOctets (names.map octets) = octets (baseName names) := by
  rw [baseOctets, baseName, List.getLast?_map, Option.getD_map]

namespace Server

variable {server : Server}

/-- The names that are sent are UTF-8. -/
def AllUtf8 (server : Server) : Prop :=
  ∀ {names entries entry}, server.readDir names = some entries → entry ∈ entries →
    octets (shown entry.1) = entry.1

theorem mem_of_view (hutf : server.AllUtf8) {entries : List (Name × Bool)} {isDirectory : Bool}
    (hread : server.view.readDir names = some entries) (hmem : (name, isDirectory) ∈ entries) :
    ∃ listed, server.readDir (names.map octets) = some listed ∧
      (octets name, isDirectory) ∈ listed := by
  obtain ⟨listed, hlisted, rfl⟩ := Option.map_eq_some_iff.mp hread
  obtain ⟨⟨raw, isDirectory'⟩, hraw, heq⟩ := List.mem_map.mp hmem
  obtain ⟨rfl, rfl⟩ := Prod.mk.inj heq
  refine ⟨listed, hlisted, ?_⟩
  rw [hutf hlisted hraw]
  exact hraw

theorem directory_of_view (hutf : server.AllUtf8) (h : server.view.Directory base names) :
    server.Directory (base.map octets) (names.map octets) := by
  induction h with
  | base => exact .base
  | inside _ hread hmem ih =>
    obtain ⟨listed, hlisted, hraw⟩ := mem_of_view hutf hread hmem
    rw [List.map_append]
    exact .inside ih hlisted hraw

/-- **An entry that is listed is one of the server**, where its names are UTF-8. -/
theorem entry_of_view (hutf : server.AllUtf8) (h : server.view.Entry base names) :
    server.Entry (base.map octets) (names.map octets) := by
  obtain ⟨directory, entries, name, isDirectory, hdirectory, hread, hmem, rfl⟩ := h
  obtain ⟨listed, hlisted, hraw⟩ := mem_of_view hutf hread hmem
  exact ⟨_, listed, _, isDirectory, directory_of_view hutf hdirectory, hlisted, hraw,
    List.map_append⟩

end Server

/-! ### What the search gives -/

section Search

variable {server : Server} {lower : List Char → List Char} {basePath : String}
  {keyword query : List Char} {found : List Octets}

/-- The pattern that `find` is asked for. -/
def patternOf (keyword : List Char) : List Char :=
  '*' :: keyword ++ ['*']

namespace RemoteShell

/-- The remote command is run to its end and prints something. -/
def Answers (shell : RemoteShell server) (basePath : String) (keyword : List Char) : Prop :=
  ∃ result,
    shell.exec (buildRemoteFindCommand (normalizeRemotePath basePath) keyword) = some result ∧
    result.timedOut = false ∧ result.stdout ≠ []

/-- The search gives the path that it read from the answer of `find`. -/
def Gives (shell : RemoteShell server) (lower : List Char → List Char) (basePath : String)
    (query path : List Char) : Prop :=
  sftpSearchFile shell lower basePath query = some path ∧
    searchRemoteFileWithFind shell.exec (normalizeRemotePath basePath) (keywordOf lower query)
      = some (some path)

/-- What `find` looks at first and matches. -/
def First (shell : RemoteShell server) (base : List Name) (keyword : List Char)
    (found : List Octets) : Prop :=
  firstMatch shell.fnmatch shell.below (base.map octets) (patternOf keyword) = some found

end RemoteShell

/-- The path is UTF-8, has one line and does not end with a blank. -/
def ReadBack (found : List Octets) : Prop :=
  ∃ names : List Name, found = names.map octets ∧ OneLine (pathOf names)

/-- The name of the directory itself does not match the pattern, and the first name below that does
has the keyword as it is written and stands in a path that is read back. -/
structure RemoteShell.Plain (shell : RemoteShell server) (lower : List Char → List Char)
    (base : List Name) (keyword : List Char) : Prop where
  outside : shell.fnmatch (patternOf keyword) (baseOctets (base.map octets)) = false
  below : ∀ found, (shell.below (base.map octets)).find?
    (fun names => shell.fnmatch (patternOf keyword) (baseOctets names)) = some found →
      keyword <:+: lower (shown (baseOctets found)) ∧ ReadBack found

theorem normalizeRemotePath_eq_pathOf (path : String) :
    (normalizeRemotePath path).toList = pathOf (resolve path) :=
  SftpPath.normalizeRemotePath_eq path

theorem tokenize_command (basePath : String) (keyword : List Char) :
    tokenize (buildRemoteFindCommand (normalizeRemotePath basePath) keyword)
      = some (findWords (pathOf (resolve basePath)) (patternOf keyword)) := by
  rw [ShellCommand.tokenize_buildRemoteFindCommand, SftpPath.normalizeRemotePath_idem,
    normalizeRemotePath_eq_pathOf]
  rfl

/-- The first that matches is the directory itself or the first below it. -/
theorem firstMatch_cases {shell : RemoteShell server} (h : shell.First base keyword found) :
    (shell.fnmatch (patternOf keyword) (baseOctets (base.map octets)) = true ∧
        found = base.map octets) ∨
      (shell.fnmatch (patternOf keyword) (baseOctets (base.map octets)) = false ∧
        (shell.below (base.map octets)).find?
          (fun names => shell.fnmatch (patternOf keyword) (baseOctets names)) = some found) := by
  rw [RemoteShell.First, firstMatch] at h
  cases hself : shell.fnmatch (patternOf keyword) (baseOctets (base.map octets)) with
  | true =>
    have hhere := List.find?_cons_of_pos (l := shell.below (base.map octets))
      (p := fun names => shell.fnmatch (patternOf keyword) (baseOctets names)) hself
    exact Or.inl ⟨rfl, Option.some.inj (h.symm.trans hhere)⟩
  | false =>
    have hnext := List.find?_cons_of_neg (l := shell.below (base.map octets))
      (p := fun names => shell.fnmatch (patternOf keyword) (baseOctets names))
      (Bool.eq_false_iff.mp hself)
    exact Or.inr ⟨rfl, hnext.symm.trans h⟩

/-- What `find` looks at has proper names. -/
theorem proper_of_first {shell : RemoteShell server} (hbase : ∀ name ∈ base, Proper name)
    (h : shell.First base keyword (names.map octets)) : ∀ name ∈ names, Proper name := by
  have hshown : ∀ {names : List Name}, (∀ name ∈ names.map octets, Proper (shown name)) ↔
      ∀ name ∈ names, Proper name := by
    intro names
    rw [List.forall_mem_map]
    exact forall₂_congr fun name _ => by rw [shown_octets]
  rcases firstMatch_cases h with ⟨-, hself⟩ | ⟨-, hbelow⟩
  · exact map_octets_injective hself ▸ hbase
  · have hentry := shell.below_sound (List.mem_of_find?_eq_some hbelow)
    exact hshown.mp (hentry.proper (hshown.mpr hbase))

/-- **An answer is the first that `find` looks at and that matches.** -/
theorem exists_of_answers (shell : RemoteShell server) (h : shell.Answers basePath keyword) :
    ∃ found, shell.First (resolve basePath) keyword found ∧
      ∀ names : List Name, found = names.map octets →
        searchRemoteFileWithFind shell.exec (normalizeRemotePath basePath) keyword
          = some (some (pathOf (partsOf (cut (pathOf names))))) := by
  obtain ⟨result, hexec, htime, hstdout⟩ := h
  have hprinted := (shell.exec_find (SftpPath.proper_resolve basePath)
    (tokenize_command basePath keyword) hexec htime).resolve_left hstdout
  rw [printed] at hprinted
  split at hprinted
  · rename_i found hfound
    refine ⟨found, hfound, ?_⟩
    rintro names rfl
    rw [octetsOf_map, ← octets_append, shown_octets] at hprinted
    rw [searchRemoteFileWithFind, hexec]
    dsimp only
    rw [htime, hprinted, search_of_printed]
    rfl
  · exact absurd (hprinted.trans (shown_octets [])) hstdout

theorem search_of_not_answers (shell : RemoteShell server) (h : ¬ shell.Answers basePath keyword)
    (path : List Char) :
    searchRemoteFileWithFind shell.exec (normalizeRemotePath basePath) keyword
      ≠ some (some path) := by
  intro hpath
  rw [searchRemoteFileWithFind] at hpath
  cases hexec : shell.exec (buildRemoteFindCommand (normalizeRemotePath basePath) keyword) with
  | none =>
    rw [hexec] at hpath
    cases hpath
  | some result =>
    rw [hexec] at hpath
    dsimp only at hpath
    split_ifs at hpath with htime
    · cases hpath
    · refine h ⟨result, hexec, Bool.eq_false_iff.mpr htime, fun hnil => ?_⟩
      rw [hnil] at hpath
      cases hpath

/-- **What was read of an answer that is read back**: the path of what `find` found. -/
theorem gives_iff (shell : RemoteShell server) (hkeyword : keywordOf lower query ≠ [])
    (hanswers : shell.Answers basePath (keywordOf lower query))
    (hfirst : shell.First (resolve basePath) (keywordOf lower query) (names.map octets))
    {path : List Char} :
    shell.Gives lower basePath query path ↔ path = pathOf (partsOf (cut (pathOf names))) := by
  obtain ⟨found, hfound, hsearch⟩ := exists_of_answers shell hanswers
  have hpath := hsearch names (Option.some.inj (hfound.symm.trans hfirst))
  rw [RemoteShell.Gives, sftpSearchFile, if_neg hkeyword]
  dsimp only
  rw [hpath]
  exact ⟨fun h => (Option.some.inj h.1).symm, fun h =>
    ⟨congrArg some h.symm, congrArg (some ∘ some) h.symm⟩⟩

/-- A path of proper names leads where the names do. -/
theorem found_pathOf (hbase : ∀ name ∈ base, Proper name) (hnames : ∀ name ∈ names, Proper name) :
    server.Found lower base keyword (pathOf names) ↔
      server.Entry (base.map octets) (names.map octets) ∧ keyword <:+: lower (baseName names) := by
  constructor
  · rintro ⟨other, hentry, hkeyword, hpath⟩
    have hother : ∀ name ∈ other, Proper name := by
      intro name hname
      have hproper := hentry.proper (List.forall_mem_map.mpr fun name hname => by
        rw [shown_octets]
        exact hbase name hname) (octets name) (List.mem_map_of_mem hname)
      rw [shown_octets] at hproper
      exact hproper
    have hsame := congrArg partsOf hpath
    rw [partsOf_pathOf hnames, partsOf_pathOf hother] at hsame
    exact hsame ▸ ⟨hentry, hkeyword⟩
  · rintro ⟨hentry, hkeyword⟩
    exact ⟨names, hentry, hkeyword, rfl⟩

/-- **The path that is read back leads to an entry exactly when the directory itself does not match
and the keyword stands in the name.** -/
theorem found_iff_plain (shell : RemoteShell server) (hbase : ∀ name ∈ base, Proper name)
    (hfirst : shell.First base keyword (names.map octets)) (hline : OneLine (pathOf names)) :
    server.Found lower base keyword (pathOf names) ↔ shell.Plain lower base keyword := by
  rw [found_pathOf hbase (proper_of_first hbase hfirst)]
  rcases firstMatch_cases hfirst with ⟨hself, hsame⟩ | ⟨hself, hbelow⟩
  · exact iff_of_false (fun h => h.1.ne_base hsame)
      fun h => Bool.false_ne_true (h.outside.symm.trans hself)
  · have hentry := shell.below_sound (List.mem_of_find?_eq_some hbelow)
    have hname : shown (baseOctets (names.map octets)) = baseName names := by
      rw [baseOctets_map, shown_octets]
    constructor
    · rintro ⟨-, hkeyword⟩
      refine ⟨hself, fun found hfound => ?_⟩
      obtain rfl := Option.some.inj (hbelow.symm.trans hfound)
      exact ⟨hname.symm ▸ hkeyword, names, rfl, hline⟩
    · intro hplain
      exact ⟨hentry, hname ▸ (hplain.below _ hbelow).1⟩

/-- **What the search reads from the answer of `find`** is an entry of the server below the
directory with the keyword in its name, when the answer is plain, and only then if its path is read
back; a path that is not read back is not the one that is given.  What it finds in the directories
is one that is listed below, with the keyword in its name. -/
theorem sftpSearchFile_exact (shell : RemoteShell server) (lower : List Char → List Char)
    (basePath : String) (query : List Char) :
    (∀ path, sftpSearchFile shell lower basePath query = some path →
      shell.Gives lower basePath query path ∨
        server.view.Found lower (resolve basePath) (keywordOf lower query) path) ∧
    ((keywordOf lower query ≠ [] → shell.Answers basePath (keywordOf lower query) →
        shell.Plain lower (resolve basePath) (keywordOf lower query)) →
      ∀ path, shell.Gives lower basePath query path →
        server.Found lower (resolve basePath) (keywordOf lower query) path) ∧
    (∀ found, keywordOf lower query ≠ [] → shell.Answers basePath (keywordOf lower query) →
      shell.First (resolve basePath) (keywordOf lower query) found →
        (ReadBack found → (∀ path, shell.Gives lower basePath query path →
            server.Found lower (resolve basePath) (keywordOf lower query) path) →
          shell.Plain lower (resolve basePath) (keywordOf lower query)) ∧
        (¬ ReadBack found → ∀ names : List Name, found = names.map octets →
          ¬ shell.Gives lower basePath query (pathOf names))) := by
  have hbase := SftpPath.proper_resolve basePath
  refine ⟨fun path hpath => ?_, fun hplain path hgives => ?_, fun found hkeyword hanswers hfirst =>
    ⟨?_, ?_⟩⟩
  · by_cases hanswer : searchRemoteFileWithFind shell.exec (normalizeRemotePath basePath)
        (keywordOf lower query) = some (some path)
    · exact Or.inl ⟨hpath, hanswer⟩
    · rw [sftpSearchFile] at hpath
      split_ifs at hpath with hblank
      dsimp only at hpath
      split at hpath
      · rename_i found hsearch
        exact absurd (hsearch.trans (congrArg some hpath)) hanswer
      · rw [normalizeRemotePath_eq_pathOf] at hpath
        exact Or.inr (found_of_searchDirs hbase hpath)
  · have hkeyword : keywordOf lower query ≠ [] := by
      intro hblank
      have hnone := hgives.1
      rw [sftpSearchFile, if_pos hblank] at hnone
      cases hnone
    have hanswers : shell.Answers basePath (keywordOf lower query) := by
      by_contra hnot
      exact search_of_not_answers shell hnot path hgives.2
    have hall := hplain hkeyword hanswers
    obtain ⟨found, hfirst, -⟩ := exists_of_answers shell hanswers
    rcases firstMatch_cases hfirst with ⟨hself, -⟩ | ⟨-, hbelow⟩
    · exact absurd (hall.outside.symm.trans hself) Bool.false_ne_true
    · obtain ⟨-, names, rfl, hline⟩ := hall.below found hbelow
      have hpath := (gives_iff shell hkeyword hanswers hfirst).mp hgives
      rw [cut_of_oneLine hline, partsOf_pathOf (proper_of_first hbase hfirst)] at hpath
      rw [hpath]
      exact (found_iff_plain shell hbase hfirst hline).mpr hall
  · rintro ⟨names, rfl, hline⟩ hall
    refine (found_iff_plain shell hbase hfirst hline).mp (hall _ ?_)
    rw [gives_iff shell hkeyword hanswers hfirst, cut_of_oneLine hline,
      partsOf_pathOf (proper_of_first hbase hfirst)]
  · rintro hnot names rfl hgives
    have hread := (gives_iff shell hkeyword hanswers hfirst).mp hgives
    exact hnot ⟨names, rfl, oneLine_of_read hread.symm⟩

end Search

/-! ### A directory that has the keyword in its own name -/

/-- `/srv/logs` with one file. -/
def logsServer : Server where
  readDir names :=
    if names = ["srv".toList, "logs".toList].map octets then some [(octets "app.log".toList, false)]
    else none
  proper := by
    intro names entries name isDirectory hread hmem
    split_ifs at hread
    obtain rfl := Option.some.inj hread
    obtain ⟨rfl, -⟩ := Prod.mk.inj (List.mem_singleton.mp hmem)
    rw [shown_octets]
    exact ⟨by decide, by decide, by decide, by decide⟩

/-- What is in the directory. -/
def logsBelow (base : List Octets) : List (List Octets) :=
  if base = ["srv".toList, "logs".toList].map octets then
    [base ++ [octets "app.log".toList]] else []

/-- Between its two stars a pattern without other special characters is a part of the name. -/
def fnmatchPart (pattern : List Char) (name : Octets) : Bool :=
  octets pattern.tail.dropLast <:+: name

theorem findWords_inj {basePath basePath' pattern pattern' : List Char}
    (h : findWords basePath pattern = findWords basePath' pattern') :
    basePath = basePath' ∧ pattern = pattern' := by
  have hquoted : ∀ {text text' : List Char}, quotedWord text = quotedWord text' → text = text' :=
    fun heq => List.map_injective_iff.mpr (fun _ _ h => ShellWords.Piece.quoted.inj h)
      (Token.word.inj heq)
  have hbase := congrArg (fun words => words[10]?) h
  have hpattern := congrArg (fun words => words[12]?) h
  exact ⟨hquoted (Option.some.inj hbase), hquoted (Option.some.inj hpattern)⟩

/-- The one command that is answered. -/
def logsExec (line : List Char) : Option ExecResult :=
  if line = buildRemoteFindCommand (normalizeRemotePath "/srv/logs") "log".toList then
    some ⟨pathOf ["srv".toList, "logs".toList] ++ ['\n'], false⟩
  else none

/-- A shell over the files. -/
def logsShell : RemoteShell logsServer where
  fnmatch := fnmatchPart
  below := logsBelow
  below_sound := by
    intro base names hmem
    rw [logsBelow] at hmem
    split_ifs at hmem with hbase
    · obtain rfl := List.mem_singleton.mp hmem
      exact ⟨base, _, _, false, .base, if_pos hbase, List.mem_singleton_self _, rfl⟩
    · cases hmem
  exec := logsExec
  exec_find := by
    intro line base pattern result hbase htokens hexec _
    rw [logsExec] at hexec
    split_ifs at hexec with hline
    obtain rfl := Option.some.inj hexec
    rw [hline, tokenize_command] at htokens
    obtain ⟨hpath, rfl⟩ := findWords_inj (Option.some.inj htokens)
    have hnames := congrArg partsOf hpath
    rw [partsOf_pathOf (SftpPath.proper_resolve _), partsOf_pathOf hbase] at hnames
    subst hnames
    exact Or.inr (by decide)

theorem logsShell_answers : logsShell.Answers "/srv/logs" "log".toList := by
  have hexec : logsExec (buildRemoteFindCommand (normalizeRemotePath "/srv/logs") "log".toList)
      = some ⟨pathOf ["srv".toList, "logs".toList] ++ ['\n'], false⟩ := by
    rw [logsExec, if_pos rfl]
  exact ⟨_, hexec, rfl, by decide⟩

/-- **The directory itself is found**, where its own name has the keyword. -/
theorem directory_itself_found : ¬ ∀ path,
    sftpSearchFile logsShell (List.map Char.toLower) "/srv/logs" "log".toList = some path →
      logsServer.Found (List.map Char.toLower) (resolve "/srv/logs")
        (keywordOf (List.map Char.toLower) "log".toList) path := by
  have hkeyword : keywordOf (List.map Char.toLower) "log".toList = "log".toList := by decide
  have hnames : resolve "/srv/logs" = ["srv".toList, "logs".toList] := by decide
  have hfirst : logsShell.First (resolve "/srv/logs") (keywordOf (List.map Char.toLower)
      "log".toList) (["srv".toList, "logs".toList].map octets) := by
    rw [hnames, hkeyword]
    exact (by decide : firstMatch fnmatchPart logsBelow (["srv".toList, "logs".toList].map octets)
      (patternOf "log".toList) = some (["srv".toList, "logs".toList].map octets))
  have hline : OneLine (pathOf ["srv".toList, "logs".toList]) := by
    have hlast : (pathOf ["srv".toList, "logs".toList]).getLast? = some 's' := by decide
    refine ⟨by decide, fun c hc => ?_⟩
    obtain rfl := Option.some.inj (hlast.symm.trans hc)
    decide
  have hproper := SftpPath.proper_resolve "/srv/logs"
  intro hall
  have hgives := (gives_iff logsShell (by rw [hkeyword]; decide)
    (hkeyword ▸ logsShell_answers) hfirst).mpr rfl
  have hfound := hall _ hgives.1
  rw [cut_of_oneLine hline, partsOf_pathOf (hnames ▸ hproper),
    found_pathOf hproper (hnames ▸ hproper), hnames] at hfound
  exact hfound.1.ne_base rfl

end RemoteSearch
end Remote
end HelmSsh
