/-
# The pages of a remote directory

`rest_files_page`, `files_cursor_tag`, `encode_files_cursor` and `decode_files_cursor` of
`src-tauri/src/api_server/handlers_remote.rs`, `api_list_files_page` of
`src-tauri/src/remote/runtime_api.rs` and `read_dir_page` of
`src/vendor/russh-sftp/src/client/session.rs`.

The server keeps nothing between two pages: the cursor says where the next one starts, and the
directory is read again from its first entry.  SHA-256 and what is shown of an entry
(`api_file_entry`) are parameters; the checks of the key and of the session, and the events and
logs, are the failures of a `World`.

* `readDirPage_eq` — one page, whatever the packets the directory comes in.
* `decode_encode` — a cursor is read back for its own directory.
* `pages_exact` — a client that follows the cursors reads each entry once, in order.
-/

import HelmSsh.Api.RangeHeader
import HelmSsh.Text
import HelmSsh.Trim
import Mathlib.Data.List.TakeDrop
import Mathlib.Order.MinMax

namespace HelmSsh
namespace Api
namespace FilesPage

variable {Attrs Entry Failure : Type}

/-! ### Reading a part of a directory -/

/-- A name in a directory with its attributes. -/
abbrev File (Attrs : Type) := List Char × Attrs

/-- What the SFTP server answers for a directory: the packets of names, and then the status `Eof`
(`none`) or a failure. -/
structure Listing (Attrs Failure : Type) where
  opened : Option Failure
  packets : List (List (File Attrs))
  ending : Option Failure
  closed : Option Failure

/-- The entries, without the directory itself and its parent. -/
def visible (files : List (File Attrs)) : List (File Attrs) :=
  files.filter fun file => file.1 ≠ ['.'] ∧ file.1 ≠ ['.', '.']

/-- `skipped` and `files`. -/
structure Reading (Attrs : Type) where
  skipped : ℕ
  files : List (File Attrs)

/-- The loop over the names of one packet, with whether it breaks out of the outer loop too. -/
def readFiles (offset limit : ℕ) : List (File Attrs) → Reading Attrs → Reading Attrs × Bool
  | [], r => (r, false)
  | file :: rest, r =>
    if file.1 = ['.'] ∨ file.1 = ['.', '.'] then readFiles offset limit rest r
    else if r.skipped < offset then
      readFiles offset limit rest { r with skipped := r.skipped + 1 }
    else if limit < (r.files ++ [file]).length then ({ r with files := r.files ++ [file] }, true)
    else readFiles offset limit rest { r with files := r.files ++ [file] }

/-- The loop `'read`. -/
def readPackets (offset limit : ℕ) (ending : Option Failure) :
    List (List (File Attrs)) → Reading Attrs → Except Failure (Reading Attrs)
  | [], r => match ending with
    | none => .ok r
    | some failure => .error failure
  | packet :: rest, r =>
    let (r, full) := readFiles offset limit packet r
    if full then .ok r else readPackets offset limit ending rest r

/-- `read_dir_page`. -/
def readDirPage (l : Listing Attrs Failure) (offset limit : ℕ) :
    Except Failure (List (File Attrs) × Bool) :=
  match l.opened with
  | some failure => .error failure
  | none =>
    let limit := max limit 1
    match readPackets offset limit l.ending l.packets ⟨0, []⟩ with
    | .error failure => .error failure
    | .ok r =>
      match l.closed with
      | some failure => .error failure
      | none => .ok (r.files.take limit, decide (limit < r.files.length))

/-- The loop has gone through these entries. -/
structure Reading.After (offset limit : ℕ) (seen : List (File Attrs))
    (r : Reading Attrs) : Prop where
  skipped : r.skipped = min offset seen.length
  files : r.files = seen.drop offset
  short : r.files.length ≤ limit

section Loop

variable {offset limit : ℕ} {seen : List (File Attrs)} {r : Reading Attrs} {file : File Attrs}

/-- An entry before the page. -/
theorem Reading.After.skip (h : r.After offset limit seen) (hskip : r.skipped < offset) :
    ({ r with skipped := r.skipped + 1 } : Reading Attrs).After offset limit (seen ++ [file]) := by
  have hskipped := h.skipped
  have hseen : seen.length < offset := by omega
  refine ⟨?_, ?_, h.short⟩
  · simp only [List.length_append, List.length_singleton]
    omega
  · rw [List.drop_eq_nil_of_le (by simpa using Nat.succ_le_of_lt hseen), h.files,
      List.drop_eq_nil_of_le hseen.le]

theorem Reading.After.offset_le (h : r.After offset limit seen) (hskip : ¬ r.skipped < offset) :
    offset ≤ seen.length := by
  have hskipped := h.skipped
  omega

theorem Reading.After.files_concat (h : r.After offset limit seen) (hskip : ¬ r.skipped < offset) :
    r.files ++ [file] = (seen ++ [file]).drop offset := by
  rw [h.files, List.drop_append_of_le_length (h.offset_le hskip)]

/-- An entry of the page. -/
theorem Reading.After.push (h : r.After offset limit seen) (hskip : ¬ r.skipped < offset)
    (hroom : (r.files ++ [file]).length ≤ limit) :
    ({ r with files := r.files ++ [file] } : Reading Attrs).After offset limit
      (seen ++ [file]) := by
  refine ⟨?_, h.files_concat hskip, hroom⟩
  have hskipped := h.skipped
  simp only [List.length_append, List.length_singleton]
  omega

/-- One packet: the loop goes through its entries or breaks with one more than the page holds. -/
theorem readFiles_spec (packet : List (File Attrs)) (h : r.After offset limit seen) :
    ((readFiles offset limit packet r).2 = false ∧
      (readFiles offset limit packet r).1.After offset limit (seen ++ visible packet)) ∨
    ((readFiles offset limit packet r).2 = true ∧ ∃ more,
      (seen ++ visible packet).drop offset = (readFiles offset limit packet r).1.files ++ more ∧
      (readFiles offset limit packet r).1.files.length = limit + 1) := by
  induction packet generalizing seen r with
  | nil => exact Or.inl ⟨rfl, by simpa [visible, readFiles] using h⟩
  | cons file rest ih =>
    by_cases hdot : file.1 = ['.'] ∨ file.1 = ['.', '.']
    · have hvisible : visible (file :: rest) = visible rest :=
        List.filter_cons_of_neg (by simpa [or_iff_not_imp_left] using hdot)
      rw [readFiles, if_pos hdot, hvisible]
      exact ih h
    · have hvisible : seen ++ visible (file :: rest) = (seen ++ [file]) ++ visible rest := by
        rw [visible, List.filter_cons_of_pos (by simpa [not_or] using hdot)]
        simp [visible]
      rw [readFiles, if_neg hdot, hvisible]
      by_cases hskip : r.skipped < offset
      · rw [if_pos hskip]
        exact ih (h.skip hskip)
      · rw [if_neg hskip]
        by_cases hfull : limit < (r.files ++ [file]).length
        · rw [if_pos hfull]
          have hoffset : offset ≤ (seen ++ [file]).length := by
            simpa using (h.offset_le hskip).trans (Nat.le_succ _)
          refine Or.inr ⟨rfl, visible rest, ?_, ?_⟩
          · rw [List.drop_append_of_le_length hoffset, h.files_concat hskip]
          · have hshort := h.short
            simp only [List.length_append, List.length_singleton] at hfull ⊢
            omega
        · rw [if_neg hfull]
          exact ih (h.push hskip (not_lt.mp hfull))

end Loop

/-- All packets. -/
theorem readPackets_ok {offset limit : ℕ} {ending : Option Failure} {seen : List (File Attrs)}
    {r r' : Reading Attrs} {packets : List (List (File Attrs))} (h : r.After offset limit seen)
    (hread : readPackets offset limit ending packets r = .ok r') :
    r'.files = ((seen ++ visible packets.flatten).drop offset).take (limit + 1) ∧
      (r'.files.length ≤ limit → ending = none) := by
  induction packets generalizing seen r with
  | nil =>
    have hall : (seen ++ visible ([] : List (List (File Attrs))).flatten).drop offset
        = r.files := by
      simp [visible, h.files]
    rw [hall]
    cases ending with
    | none =>
      obtain rfl := Except.ok.inj hread
      exact ⟨(List.take_of_length_le (h.short.trans (Nat.le_succ _))).symm, fun _ => rfl⟩
    | some failure => cases hread
  | cons packet rest ih =>
    have hall : seen ++ visible (packet :: rest).flatten =
        (seen ++ visible packet) ++ visible rest.flatten := by
      simp [visible, List.filter_append]
    rw [hall]
    rw [readPackets] at hread
    rcases readFiles_spec packet h with ⟨hfull, hafter⟩ | ⟨hfull, more, hdrop, hlength⟩
    · simp only [hfull, Bool.false_eq_true, if_false] at hread
      exact ih hafter hread
    · simp only [hfull, if_true] at hread
      obtain rfl := Except.ok.inj hread
      refine ⟨?_, fun hle => absurd hle (by omega)⟩
      have hoffset : offset ≤ (seen ++ visible packet).length := by
        by_contra hlt
        rw [List.drop_eq_nil_of_le (not_le.mp hlt).le] at hdrop
        have := congrArg List.length hdrop
        simp only [List.length_nil, List.length_append] at this
        omega
      rw [List.drop_append_of_le_length hoffset, hdrop, List.append_assoc, ← hlength,
        List.take_left]

theorem readPackets_of_ending {offset limit : ℕ} (packets : List (List (File Attrs)))
    (r : Reading Attrs) :
    ∃ r', readPackets offset limit (none : Option Failure) packets r = .ok r' := by
  induction packets generalizing r with
  | nil => exact ⟨r, rfl⟩
  | cons packet rest ih =>
    rw [readPackets]
    dsimp only
    split_ifs
    · exact ⟨_, rfl⟩
    · exact ih _

theorem start_after (offset limit : ℕ) :
    (⟨0, []⟩ : Reading Attrs).After offset limit [] :=
  ⟨by simp, by simp, Nat.zero_le _⟩

/-- **One page.**  A directory that is read to its end is cut at the offset; a failure after the
entries of the page is not seen. -/
theorem readDirPage_eq {l : Listing Attrs Failure} {offset limit : ℕ}
    {page : List (File Attrs) × Bool} (hlimit : 0 < limit)
    (h : readDirPage l offset limit = .ok page) :
    page = (((visible l.packets.flatten).drop offset).take limit,
      decide (limit < ((visible l.packets.flatten).drop offset).length)) ∧
    (page.2 = false → l.ending = none) := by
  unfold readDirPage at h
  rw [max_eq_left (Nat.succ_le_of_lt hlimit)] at h
  dsimp only at h
  split at h <;> try cases h
  split at h <;> try cases h
  rename_i r hread
  split at h <;> cases h
  obtain ⟨hfiles, hending⟩ := readPackets_ok (start_after offset limit) hread
  rw [List.nil_append] at hfiles
  have hlength : limit < r.files.length ↔
      limit < ((visible l.packets.flatten).drop offset).length := by
    rw [hfiles, List.length_take]
    omega
  refine ⟨?_, fun hmore => hending (not_lt.mp (of_decide_eq_false hmore))⟩
  rw [decide_eq_decide.mpr hlength, hfiles, List.take_take, min_eq_left (Nat.le_succ limit)]

/-! ### The cursor -/

/-- `hex::encode`. -/
def hexEncode (bytes : List UInt8) : List Char :=
  bytes.flatMap fun b => [Nat.digitChar (b.toNat / 16), Nat.digitChar (b.toNat % 16)]

/-- `files_cursor_tag`. -/
def filesCursorTag (sha256 : List UInt8 → List UInt8) (path : List Char) : List Char :=
  (hexEncode (sha256 ((RangeHeader.trim path).flatMap String.utf8EncodeChar))).take 16

/-- `encode_files_cursor`. -/
def encodeFilesCursor (sha256 : List UInt8 → List UInt8) (path : List Char) (offset : ℕ) :
    List Char :=
  'v' :: '1' :: ':' :: (filesCursorTag sha256 path ++ ':' :: Nat.toDigits 10 offset)

/-- `decode_files_cursor`, without the text of its error. -/
def decodeFilesCursor (sha256 : List UInt8 → List UInt8) (cursor : Option (List Char))
    (path : List Char) : Option ℕ :=
  match cursor with
  | none => some 0
  | some cursor =>
    match cursor.splitOn ':' with
    | [version, tag, offset] =>
      if version = ['v', '1'] ∧ tag = filesCursorTag sha256 path then RangeHeader.parseU64 offset
      else none
    | _ => none

theorem colon_notMem_tag (sha256 : List UInt8 → List UInt8) (path : List Char) :
    ':' ∉ filesCursorTag sha256 path := by
  intro hmem
  obtain ⟨b, -, hb⟩ := List.mem_flatMap.mp (List.mem_of_mem_take hmem)
  have hdigit : ∀ n < 16, Nat.digitChar n ≠ ':' := by decide
  simp only [List.mem_cons, List.not_mem_nil, or_false] at hb
  rcases hb with h | h
  · exact hdigit _ (Nat.div_lt_of_lt_mul b.toNat_lt) h.symm
  · exact hdigit _ (Nat.mod_lt _ (by decide)) h.symm

/-- **A cursor is read for the directories with its tag**, and gives the offset back. -/
theorem decode_encode (sha256 : List UInt8 → List UInt8) (path path' : List Char) {offset : ℕ}
    (h : offset < 2 ^ 64) :
    decodeFilesCursor sha256 (some (encodeFilesCursor sha256 path offset)) path' =
      if filesCursorTag sha256 path = filesCursorTag sha256 path' then some offset else none := by
  have hdigits : ∀ c ∈ Nat.toDigits 10 offset, RangeHeader.isDigit c = true := by
    intro c hc
    have := Nat.isDigit_of_mem_toDigits (by decide) (by decide) hc
    simpa [RangeHeader.isDigit, Char.isDigit, UInt32.le_iff_toNat_le] using this
  have hnumber : RangeHeader.Number (Nat.toDigits 10 offset) offset :=
    ⟨Nat.toDigits_ne_nil, hdigits, Nat.ofDigitChars_ten_toDigits⟩
  have hsplit : (encodeFilesCursor sha256 path offset).splitOn ':' =
      [['v', '1'], filesCursorTag sha256 path, Nat.toDigits 10 offset] := by
    have hjoin : encodeFilesCursor sha256 path offset =
        [':'].intercalate [['v', '1'], filesCursorTag sha256 path, Nat.toDigits 10 offset] := by
      simp [encodeFilesCursor, List.intercalate]
    rw [hjoin, List.splitOn_intercalate ':' _ (List.cons_ne_nil _ _)]
    intro part hpart
    simp only [List.mem_cons, List.not_mem_nil, or_false] at hpart
    rcases hpart with rfl | rfl | rfl
    · decide
    · exact colon_notMem_tag sha256 path
    · exact hnumber.not_mem (by decide)
  simp only [decodeFilesCursor, hsplit, true_and, hnumber.parseU64, if_pos h]

/-! ### The request -/

/-- The functions that are parameters: SHA-256 and `api_file_entry`. -/
structure Server (Attrs Entry : Type) where
  sha256 : List UInt8 → List UInt8
  apiFileEntry : List Char → File Attrs → Entry

/-- What a request meets: the checks of the key and of the session before and after the directory
is read, and the directory. -/
structure World (Attrs Failure : Type) where
  auth : Option Failure
  ready : Option Failure
  listing : Listing Attrs Failure
  allowed : Option Failure

/-- `FilesPageQuery`. -/
structure FilesPageQuery where
  sessionId : List Char
  path : List Char
  cursor : Option (List Char)
  limit : Option UInt16

/-- `FilesPageResponse`. -/
structure FilesPageResponse (Entry : Type) where
  items : List Entry
  nextCursor : Option (List Char)
  hasMore : Bool

/-- An error answer. -/
inductive ApiError (Failure : Type)
  | badRequest (message : String)
  | failed (failure : Failure)

def defaultFilesPageLimit : ℕ := 100
def maxFilesPageLimit : ℕ := 500

/-- `limit` of the request. -/
def FilesPageQuery.pageLimit (query : FilesPageQuery) : ℕ :=
  (query.limit.map UInt16.toNat).getD defaultFilesPageLimit

/-- `rest_files_page`. -/
def restFilesPage (s : Server Attrs Entry) (w : World Attrs Failure) (query : FilesPageQuery) :
    Except (ApiError Failure) (FilesPageResponse Entry) :=
  match w.auth with
  | some failure => .error (.failed failure)
  | none =>
    if RangeHeader.trim query.sessionId = [] ∨ RangeHeader.trim query.path = [] then
      .error (.badRequest "缺少 sessionId 或 path")
    else if ¬ (1 ≤ query.pageLimit ∧ query.pageLimit ≤ maxFilesPageLimit) then
      .error (.badRequest "limit 必须在 1–500 之间")
    else
      match decodeFilesCursor s.sha256 query.cursor query.path with
      | none => .error (.badRequest "cursor 无效或不属于当前目录")
      | some offset =>
        match w.ready with
        | some failure => .error (.failed failure)
        | none =>
          match readDirPage w.listing offset query.pageLimit with
          | .error failure => .error (.failed failure)
          | .ok (files, hasMore) =>
            match w.allowed with
            | some failure => .error (.failed failure)
            | none => .ok
              { items := files.map (s.apiFileEntry query.path)
                nextCursor := if hasMore then some (encodeFilesCursor s.sha256 query.path
                  (min (offset + files.length) (2 ^ 64 - 1))) else none
                hasMore := hasMore }

/-- The directory holds these files; a listing that fails before its end gives only the first. -/
def World.Lists (w : World Attrs Failure) (files : List (File Attrs)) : Prop :=
  ∃ rest, files = visible w.listing.packets.flatten ++ rest ∧ (w.listing.ending = none → rest = [])

/-- Nothing fails. -/
structure World.Healthy (w : World Attrs Failure) : Prop where
  auth : w.auth = none
  ready : w.ready = none
  opened : w.listing.opened = none
  ending : w.listing.ending = none
  closed : w.listing.closed = none
  allowed : w.allowed = none

/-- **The answer to a request**, with the entries from the offset of the cursor on. -/
theorem restFilesPage_ok {s : Server Attrs Entry} {w : World Attrs Failure}
    {query : FilesPageQuery} {page : FilesPageResponse Entry} {files : List (File Attrs)}
    {offset : ℕ} (hlists : w.Lists files) (hfit : files.length < 2 ^ 64)
    (hoffset : decodeFilesCursor s.sha256 query.cursor query.path = some offset)
    (h : restFilesPage s w query = .ok page) :
    0 < query.pageLimit ∧
      page.items = ((files.drop offset).take query.pageLimit).map (s.apiFileEntry query.path) ∧
      if offset + query.pageLimit < files.length then
        page.hasMore = true ∧ page.nextCursor =
          some (encodeFilesCursor s.sha256 query.path (offset + query.pageLimit))
      else page.hasMore = false := by
  unfold restFilesPage at h
  rw [hoffset] at h
  split at h <;> try cases h
  split_ifs at h with hblank hlimit
  dsimp only at h
  split at h <;> try cases h
  split at h <;> try cases h
  rename_i part more hread
  split at h <;> cases h
  obtain ⟨hpart, hend⟩ := readDirPage_eq hlimit.1 hread
  obtain ⟨rfl, rfl⟩ := Prod.mk.inj hpart
  obtain ⟨rest, rfl, hrest⟩ := hlists
  generalize visible w.listing.packets.flatten = read at *
  by_cases hmore : query.pageLimit < (read.drop offset).length
  · have hpage : query.pageLimit ≤ (read.drop offset).length := hmore.le
    have hlength : offset + query.pageLimit < read.length := by
      rw [List.length_drop] at hmore
      omega
    have hlong : offset + query.pageLimit < (read ++ rest).length :=
      hlength.trans_le (by simp)
    refine ⟨hlimit.1, ?_, ?_⟩
    · rw [List.drop_append_of_le_length (by omega), List.take_append_of_le_length hpage]
    · rw [if_pos hlong]
      refine ⟨decide_eq_true hmore, ?_⟩
      rw [decide_eq_true hmore, if_pos rfl, List.length_take_of_le hpage, min_eq_left (by omega)]
  · obtain rfl := hrest (hend (decide_eq_false hmore))
    rw [List.append_nil]
    refine ⟨hlimit.1, rfl, ?_⟩
    rw [if_neg fun hlong => hmore (by rw [List.length_drop]; omega)]
    exact decide_eq_false hmore

/-! ### Following the cursors -/

/-- A client of the pages: what it has read, where it goes on, and how many pages it was given. -/
structure Client (Entry : Type) where
  items : List Entry
  cursor : Option (List Char)
  finished : Bool
  answers : ℕ

/-- One request.  After an error the client asks with the same cursor again. -/
def Client.step (s : Server Attrs Entry) (sessionId path : List Char) (c : Client Entry)
    (round : World Attrs Failure × Option UInt16) : Client Entry :=
  if c.finished then c
  else
    match restFilesPage s round.1 ⟨sessionId, path, c.cursor, round.2⟩ with
    | .error _ => c
    | .ok page => ⟨c.items ++ page.items, page.nextCursor, !page.hasMore, c.answers + 1⟩

/-- A client that begins without a cursor. -/
def pages (s : Server Attrs Entry) (sessionId path : List Char)
    (rounds : List (World Attrs Failure × Option UInt16)) : Client Entry :=
  rounds.foldl (Client.step s sessionId path) ⟨[], none, false, 0⟩

/-- What a client that goes on at `k` has read. -/
structure Client.Reads (s : Server Attrs Entry) (path : List Char) (files : List (File Attrs))
    (c : Client Entry) (k : ℕ) : Prop where
  le : k ≤ files.length
  items : c.items = (files.take k).map (s.apiFileEntry path)
  next : c.finished = false →
    decodeFilesCursor s.sha256 c.cursor path = some k ∧ c.answers ≤ k
  all : c.finished = true → k = files.length

section Runs

variable {s : Server Attrs Entry} {sessionId path : List Char} {files : List (File Attrs)}

/-- One request. -/
theorem Client.Reads.step {c : Client Entry} {k : ℕ} {round : World Attrs Failure × Option UInt16}
    (h : c.Reads s path files k) (hfit : files.length < 2 ^ 64) (hlists : round.1.Lists files) :
    ∃ k', (c.step s sessionId path round).Reads s path files k' := by
  unfold Client.step
  split_ifs with hfinished
  · exact ⟨k, h⟩
  · obtain ⟨hcursor, hanswers⟩ := h.next (Bool.eq_false_of_not_eq_true hfinished)
    split
    · exact ⟨k, h⟩
    · rename_i page hpage
      obtain ⟨hlimit, hitems, hmore⟩ := restFilesPage_ok hlists hfit hcursor hpage
      dsimp only at hitems
      split_ifs at hmore with hlong
      · refine ⟨_, hlong.le, ?_, fun _ => ⟨?_, ?_⟩, fun hdone => ?_⟩
        · rw [List.take_add, List.map_append, hitems, h.items]
        · rw [hmore.2, decode_encode s.sha256 path path (hlong.trans hfit), if_pos rfl]
        · dsimp only
          omega
        · rw [hmore.1] at hdone
          cases hdone
      · refine ⟨files.length, le_rfl, ?_, fun hdone => ?_, fun _ => rfl⟩
        · rw [hitems, List.take_of_length_le (by rw [List.length_drop]; omega), h.items,
            ← List.map_append, List.take_append_drop, List.take_length]
        · rw [hmore] at hdone
          cases hdone

/-- All requests. -/
theorem pages_reads (rounds : List (World Attrs Failure × Option UInt16))
    (hfit : files.length < 2 ^ 64) (hlists : ∀ round ∈ rounds, round.1.Lists files) :
    ∃ k, (pages s sessionId path rounds).Reads s path files k := by
  have hrun : ∀ (c : Client Entry) (k : ℕ), c.Reads s path files k →
      ∃ k', (rounds.foldl (Client.step s sessionId path) c).Reads s path files k' := by
    induction rounds with
    | nil => exact fun c k h => ⟨k, h⟩
    | cons round rest ih =>
      intro c k h
      have hstep : ∃ k', (c.step s sessionId path round).Reads s path files k' :=
        h.step hfit (hlists round (List.mem_cons_self ..))
      obtain ⟨k', h'⟩ := hstep
      exact ih (fun round hround => hlists round (List.mem_cons_of_mem _ hround)) _ k' h'
  exact hrun _ 0 ⟨Nat.zero_le _, rfl, fun _ => ⟨rfl, le_rfl⟩, fun h => nomatch h⟩

/-- A request of a client that goes on is answered when nothing fails. -/
theorem restFilesPage_of_healthy {w : World Attrs Failure} {query : FilesPageQuery} {offset : ℕ}
    (hw : w.Healthy) (hsession : RangeHeader.trim query.sessionId ≠ [])
    (hpath : RangeHeader.trim query.path ≠ [])
    (hlimit : 1 ≤ query.pageLimit ∧ query.pageLimit ≤ maxFilesPageLimit)
    (hoffset : decodeFilesCursor s.sha256 query.cursor query.path = some offset) :
    ∃ page, restFilesPage s w query = .ok page := by
  have hread : ∃ r, readPackets offset query.pageLimit (none : Option Failure) w.listing.packets
      ⟨0, []⟩ = .ok r := readPackets_of_ending _ _
  obtain ⟨r, hr⟩ := hread
  unfold restFilesPage readDirPage
  simp only [hw.auth, not_or.mpr ⟨hsession, hpath⟩, if_false, not_true_eq_false, hlimit, and_self,
    hoffset, hw.ready, hw.opened, max_eq_left hlimit.1, hw.ending, hr, hw.closed, hw.allowed]
  exact ⟨_, rfl⟩

/-- **The pages of a directory are the directory.**  Whatever the packets, the limits and the
failures of the requests, a client has the first entries, each once and in order; at the end it has
all; a request is answered as long as nothing fails, and not more often than there are entries
before the end. -/
theorem pages_exact (rounds : List (World Attrs Failure × Option UInt16))
    (hfit : files.length < 2 ^ 64) (hlists : ∀ round ∈ rounds, round.1.Lists files)
    (hsession : RangeHeader.trim sessionId ≠ []) (hpath : RangeHeader.trim path ≠ []) :
    let c := pages s sessionId path rounds
    c.items <+: files.map (s.apiFileEntry path) ∧
      (c.finished = true → c.items = files.map (s.apiFileEntry path)) ∧
      (files.length < c.answers → c.finished = true) ∧
      (c.finished = false → ∀ (w : World Attrs Failure) (limit : Option UInt16), w.Healthy →
        (∀ l ∈ limit, 1 ≤ l.toNat ∧ l.toNat ≤ maxFilesPageLimit) →
        ∃ page, restFilesPage s w ⟨sessionId, path, c.cursor, limit⟩ = .ok page) := by
  intro c
  have hreads : ∃ k, c.Reads s path files k := pages_reads rounds hfit hlists
  obtain ⟨k, h⟩ := hreads
  refine ⟨?_, ?_, ?_, ?_⟩
  · rw [h.items]
    exact (List.take_prefix k files).map _
  · intro hfinished
    rw [h.items, h.all hfinished, List.take_length]
  · intro hmany
    by_contra hfinished
    have hanswers := (h.next (Bool.eq_false_of_not_eq_true hfinished)).2
    exact absurd (hmany.trans_le hanswers) (not_lt.mpr h.le)
  · intro hfinished w limit hw hlimit
    refine restFilesPage_of_healthy hw hsession hpath ?_ (h.next hfinished).1
    cases limit with
    | none =>
      exact (by decide : 1 ≤ defaultFilesPageLimit ∧ defaultFilesPageLimit ≤ maxFilesPageLimit)
    | some l => exact hlimit l rfl

end Runs

/-- The digest of `/srv`; the names are shown. -/
def srvServer : Server Unit (List Char) where
  sha256 _ := [0xa3, 0xd9, 0xac, 0x4f, 0xde, 0xe9, 0xc2, 0x42, 0x4e, 0x2f, 0xe9, 0x57,
    0x42, 0xf4, 0x5f, 0x7d, 0x51, 0x34, 0x42, 0x6a, 0xee, 0x73, 0x4e, 0x77,
    0x82, 0x01, 0xf5, 0xdb, 0x16, 0x17, 0x41, 0xcc]
  apiFileEntry _ file := file.1

/-- `/srv` with three files, in packets of two names. -/
def srvWorld : World Unit Unit :=
  ⟨none, none, ⟨none, [[(['.'], ()), (['a'], ())], [(['b'], ()), (['c'], ())]], none, none⟩, none⟩

/-- Three requests for two files each; the session is not ready for the second. -/
def srvRounds : List (World Unit Unit × Option UInt16) :=
  [(srvWorld, some 2), ({ srvWorld with ready := some () }, some 2), (srvWorld, some 2)]

theorem pages_exact_srv :
    (pages srvServer ['s'] ['/', 's', 'r', 'v'] srvRounds).finished = true ∧
      (pages srvServer ['s'] ['/', 's', 'r', 'v'] srvRounds).items = [['a'], ['b'], ['c']] := by
  have hlists : ∀ round ∈ srvRounds, round.1.Lists [(['a'], ()), (['b'], ()), (['c'], ())] := by
    intro round hround
    simp only [srvRounds, List.mem_cons, List.not_mem_nil, or_false] at hround
    rcases hround with rfl | rfl | rfl <;> exact ⟨[], by decide, fun _ => rfl⟩
  have hfinished : (pages srvServer ['s'] ['/', 's', 'r', 'v'] srvRounds).finished = true := by
    decide +kernel
  exact ⟨hfinished,
    (pages_exact srvRounds (by decide) hlists (by decide) (by decide)).2.1 hfinished⟩

end FilesPage
end Api
end HelmSsh
