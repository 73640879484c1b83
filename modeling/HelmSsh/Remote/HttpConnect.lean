/-
# A tunnel through an HTTP proxy

`connect_via_http_connect` and `read_http_header` of `src-tauri/src/remote/proxy.rs`: the reply of
the proxy is read byte by byte up to its first blank line, repaired to be a text, and the tunnel is
taken when the first line of the text has ` 200 ` somewhere in it.

The connection to the proxy and the timeout of the handshake are left out: each ends it with an
error.

* `readFrom_spec` — nothing after the blank line is read, and never more than the limit.
* `connectViaHttpConnect_exact` — the tunnel is taken exactly for the status lines that say so,
  unless ` 200 ` stands in another place of the line.
* `refusal_taken` — a refusal that mentions the code in its reason is taken for a tunnel.
-/

import HelmSsh.Errors
import HelmSsh.Utf8.Repair
import Mathlib.Data.List.Infix

namespace HelmSsh
namespace Remote
namespace HttpConnect

open Utf8

/-- `read_exact` of one byte, of a stream that arrives in pieces. -/
def readByte : List (List UInt8) → Option (UInt8 × List (List UInt8))
  | [] => none
  | [] :: pieces => readByte pieces
  | (b :: piece) :: pieces => some (b, piece :: pieces)

/-- `b"\r\n\r\n"`. -/
def blankLine : List UInt8 := [13, 10, 13, 10]

/-- The bytes that a header may have. -/
def maxHeaderBytes : ℕ := 16 * 1024

/-- The loop of `read_http_header`, with room for so many bytes, and what is left unread. -/
def readFrom : ℕ → List UInt8 → List (List UInt8) → AppResult Str × List (List UInt8)
  | 0, _, pieces => (.error (.remote "HTTP CONNECT 代理响应头过大"), pieces)
  | room + 1, buffer, pieces =>
    match readByte pieces with
    | none => (.error (.remote "early eof"), [])
    | some (byte, pieces) =>
      let buffer := buffer ++ [byte]
      if blankLine <:+ buffer then (.ok (fromUtf8Lossy buffer), pieces)
      else readFrom room buffer pieces

/-- `read_http_header`. -/
def readHttpHeader (pieces : List (List UInt8)) : AppResult Str × List (List UInt8) :=
  readFrom maxHeaderBytes [] pieces

/-- `text.lines().next().unwrap_or_default()`: up to the first line feed, without a carriage
return before it. -/
def firstLine (text : List UInt8) : List UInt8 :=
  let line := text.takeWhile (· ≠ 10)
  if line.length < text.length ∧ line.getLast? = some 13 then line.dropLast else line

/-- `b" 200 "`. -/
def accepted : List UInt8 := [32, 50, 48, 48, 32]

theorem isAscii_of_mem_accepted : ∀ b ∈ accepted, IsAscii b := by
  have hall : (accepted.all fun b => b.toNat < 0x80) = true := by decide
  exact fun b hb => of_decide_eq_true (List.all_eq_true.mp hall b hb)

/-- The request of `connect_via_http_connect`. -/
def request (targetHost : String) (targetPort : UInt16) : String :=
  let target := targetHost ++ ":" ++ toString targetPort
  "CONNECT " ++ target ++ " HTTP/1.1\r\nHost: " ++ target ++
    "\r\nProxy-Connection: keep-alive\r\n\r\n"

/-- What a handshake comes to: what was written, its result, and the reply that is left for the
SSH session. -/
structure Handshake where
  written : String
  result : AppResult Unit
  unread : List (List UInt8)

/-- `connect_via_http_connect`, once it is connected to the proxy. -/
def connectViaHttpConnect (targetHost : String) (targetPort : UInt16)
    (reply : List (List UInt8)) : Handshake where
  written := request targetHost targetPort
  result :=
    match (readHttpHeader reply).1 with
    | .error error => .error error
    | .ok response =>
      if accepted <:+: firstLine response.bytes then .ok ()
      else
        .error (.remote ("HTTP CONNECT 代理连接失败: " ++
          (fromUtf8Lossy (firstLine response.bytes)).text))
  unread := (readHttpHeader reply).2

/-! ### Reading up to the blank line -/

/-- The header of a reply: up to its first blank line. -/
structure IsHeader (reply header : List UInt8) : Prop where
  front : header <+: reply
  ends : blankLine <:+ header
  least : ∀ front, front <+: reply → blankLine <:+ front → header.length ≤ front.length

theorem readByte_cases (pieces : List (List UInt8)) :
    (readByte pieces = none ∧ pieces.flatten = []) ∨
      ∃ b rest, readByte pieces = some (b, rest) ∧ pieces.flatten = b :: rest.flatten := by
  induction pieces with
  | nil => exact Or.inl ⟨rfl, rfl⟩
  | cons piece pieces ih =>
    cases piece with
    | nil => exact ih
    | cons b piece => exact Or.inr ⟨b, piece :: pieces, rfl, rfl⟩

/-- **What the loop reads**: up to the first blank line, if there is one within its room, and
otherwise no more than its room. -/
theorem readFrom_spec (room : ℕ) (buffer : List UInt8) (pieces : List (List UInt8)) :
    (∃ n, 0 < n ∧ n ≤ room ∧ n ≤ pieces.flatten.length ∧
        blankLine <:+ buffer ++ pieces.flatten.take n ∧
        (∀ m, 0 < m → m < n → ¬ blankLine <:+ buffer ++ pieces.flatten.take m) ∧
        (readFrom room buffer pieces).1 = .ok (fromUtf8Lossy (buffer ++ pieces.flatten.take n)) ∧
        (readFrom room buffer pieces).2.flatten = pieces.flatten.drop n) ∨
      ((∀ n, 0 < n → n ≤ room → n ≤ pieces.flatten.length →
          ¬ blankLine <:+ buffer ++ pieces.flatten.take n) ∧
        (∃ error, (readFrom room buffer pieces).1 = .error error) ∧
        (readFrom room buffer pieces).2.flatten = pieces.flatten.drop room) := by
  induction room generalizing buffer pieces with
  | zero =>
    refine Or.inr ⟨fun n hpos hle => by omega, ⟨_, rfl⟩, ?_⟩
    rw [List.drop_zero]
    rfl
  | succ room ih =>
    rcases readByte_cases pieces with ⟨hread, hflat⟩ | ⟨b, rest, hread, hflat⟩
    · rw [readFrom, hread, hflat]
      refine Or.inr ⟨fun n hpos _ hle => ?_, ⟨_, rfl⟩, ?_⟩
      · rw [List.length_nil] at hle
        omega
      · rw [List.drop_nil]
        rfl
    · rw [readFrom, hread, hflat]
      dsimp only
      have hone : (b :: rest.flatten).take 1 = [b] := by rw [List.take_succ_cons, List.take_zero]
      have hmore : ∀ n, buffer ++ (b :: rest.flatten).take (n + 1)
          = buffer ++ [b] ++ rest.flatten.take n := by
        intro n
        rw [List.take_succ_cons, List.append_assoc, List.singleton_append]
      split_ifs with hends
      · refine Or.inl ⟨1, Nat.one_pos, by omega, ?_, ?_, fun m hpos hlt => by omega, ?_, ?_⟩
        · rw [List.length_cons]
          omega
        · rw [hone]
          exact hends
        · rw [hone]
        · rw [List.drop_succ_cons, List.drop_zero]
      · rcases ih (buffer ++ [b]) rest with
          ⟨n, hpos, hle, hlen, hblank, hleast, hok, hrest⟩ | ⟨hnone, herror, hrest⟩
        · refine Or.inl ⟨n + 1, Nat.succ_pos n, by omega, ?_, ?_, fun m hm hlt => ?_, ?_, ?_⟩
          · rw [List.length_cons]
            omega
          · rwa [hmore]
          · obtain ⟨k, rfl⟩ := Nat.exists_eq_add_of_le' hm
            rw [hmore]
            by_cases hk : k = 0
            · rwa [hk, List.take_zero, List.append_nil]
            · exact hleast k (by omega) (by omega)
          · rw [hmore]
            exact hok
          · rw [List.drop_succ_cons]
            exact hrest
        · refine Or.inr ⟨fun m hm hle hlen => ?_, herror, ?_⟩
          · obtain ⟨k, rfl⟩ := Nat.exists_eq_add_of_le' hm
            rw [List.length_cons] at hlen
            rw [hmore]
            by_cases hk : k = 0
            · rwa [hk, List.take_zero, List.append_nil]
            · exact hnone k (by omega) (by omega) (by omega)
          · rw [List.drop_succ_cons]
            exact hrest

variable {reply header : List UInt8}

theorem IsHeader.unique {header' : List UInt8} (h : IsHeader reply header)
    (h' : IsHeader reply header') : header = header' := by
  have hlen : header.length = header'.length :=
    Nat.le_antisymm (h.least header' h'.front h'.ends) (h'.least header h.front h.ends)
  rw [List.prefix_iff_eq_take.mp h.front, List.prefix_iff_eq_take.mp h'.front, hlen]

theorem length_pos_of_blankLine {front : List UInt8} (h : blankLine <:+ front) :
    0 < front.length :=
  Nat.lt_of_lt_of_le (by decide) h.length_le

/-- **The header is read and nothing after it**, unless it is over the limit or does not end. -/
theorem readHttpHeader_cases (pieces : List (List UInt8)) :
    (∃ header, IsHeader pieces.flatten header ∧ header.length ≤ maxHeaderBytes ∧
        (readHttpHeader pieces).1 = .ok (fromUtf8Lossy header) ∧
        pieces.flatten = header ++ (readHttpHeader pieces).2.flatten) ∨
      ((∀ header, IsHeader pieces.flatten header → maxHeaderBytes < header.length) ∧
        (∃ error, (readHttpHeader pieces).1 = .error error) ∧
        (readHttpHeader pieces).2.flatten = pieces.flatten.drop maxHeaderBytes) := by
  rcases readFrom_spec maxHeaderBytes [] pieces with
    ⟨n, hpos, hle, hlen, hblank, hleast, hok, hrest⟩ | ⟨hnone, herror, hrest⟩
  · refine Or.inl ⟨pieces.flatten.take n, ⟨List.take_prefix _ _, hblank, ?_⟩, ?_, hok, ?_⟩
    · intro front hfront hends
      have htake := List.prefix_iff_eq_take.mp hfront
      have hpos' := length_pos_of_blankLine hends
      rw [List.length_take]
      by_contra hlt
      refine hleast front.length hpos' (by omega) ?_
      rw [List.nil_append, ← htake]
      exact hends
    · rw [List.length_take]
      omega
    · rw [readHttpHeader, hrest, List.take_append_drop]
  · refine Or.inr ⟨fun header h => ?_, herror, hrest⟩
    have hpos := length_pos_of_blankLine h.ends
    by_contra hle
    refine hnone header.length hpos (by omega) h.front.length_le ?_
    rw [List.nil_append, ← List.prefix_iff_eq_take.mp h.front]
    exact h.ends

/-! ### The status line -/

/-- A carriage return at the end of a line is not part of ` 200 `. -/
theorem infix_firstLine (text : List UInt8) :
    accepted <:+: firstLine text ↔ accepted <:+: text.takeWhile (· ≠ 10) := by
  unfold firstLine
  dsimp only
  split_ifs with hcr
  · obtain ⟨front, hfront⟩ := List.getLast?_eq_some_iff.mp hcr.2
    rw [hfront, List.dropLast_concat, List.infix_concat_iff, or_iff_right]
    rintro ⟨before, hbefore⟩
    have hlast : accepted = [32, 50, 48, 48] ++ [32] := rfl
    rw [hlast, ← List.append_assoc] at hbefore
    obtain ⟨-, h⟩ := List.append_inj' hbefore rfl
    exact absurd h (by decide)
  · rfl

theorem infix_firstLine_lossy (header : List UInt8) :
    accepted <:+: firstLine (fromUtf8Lossy header).bytes ↔ accepted <:+: firstLine header := by
  have hstop : IsAscii 10 := by decide
  have hline := (repaired_fromUtf8Lossy header).takeWhile hstop
  rw [infix_firstLine, infix_firstLine, hline.infix_iff isAscii_of_mem_accepted (by decide)]

/-- `HTTP/1.`. -/
def httpVersion : List UInt8 := [72, 84, 84, 80, 47, 49, 46]

/-- A digit. -/
def isDigit (b : UInt8) : Bool :=
  48 ≤ b.toNat && b.toNat ≤ 57

/-- A byte of a reason: a tab, a space, a visible character or a byte from 128 on. -/
def isReasonByte (b : UInt8) : Bool :=
  b.toNat = 9 || (32 ≤ b.toNat && b.toNat ≠ 127)

/-- A status line of HTTP/1.x with the code 200. -/
def StatusOk (line : List UInt8) : Prop :=
  ∃ minor reason, isDigit minor = true ∧ (∀ b ∈ reason, isReasonByte b = true) ∧
    line = httpVersion ++ minor :: (accepted ++ reason)

theorem StatusOk.infix {line : List UInt8} (h : StatusOk line) : accepted <:+: line := by
  obtain ⟨minor, reason, -, -, rfl⟩ := h
  exact ⟨httpVersion ++ [minor], reason, by
    rw [List.append_assoc, List.append_assoc, List.singleton_append]⟩

/-- A tunnel is taken when the header is there and ` 200 ` stands on its first line. -/
theorem result_eq_ok (targetHost : String) (targetPort : UInt16) (pieces : List (List UInt8)) :
    (connectViaHttpConnect targetHost targetPort pieces).result = .ok () ↔
      ∃ header, IsHeader pieces.flatten header ∧ header.length ≤ maxHeaderBytes ∧
        accepted <:+: firstLine header := by
  rw [connectViaHttpConnect]
  dsimp only
  rcases readHttpHeader_cases pieces with ⟨header, hheader, hle, hok, -⟩ |
    ⟨hnone, ⟨error, herror⟩, -⟩
  · rw [hok]
    dsimp only
    rw [ite_eq_iff]
    simp only [infix_firstLine_lossy, reduceCtorEq, and_false, or_false, and_true]
    constructor
    · exact fun h => ⟨header, hheader, hle, h⟩
    · rintro ⟨header', hheader', -, h⟩
      rwa [hheader.unique hheader']
  · rw [herror]
    refine iff_of_false (fun h => ?_) ?_
    · cases h
    · rintro ⟨header, hheader, hle, -⟩
      exact absurd hle (Nat.not_le_of_lt (hnone header hheader))

/-- The tunnel is taken exactly for a status line that says so, nothing is read after the blank
line, and a header over the limit ends with an error before more of it is read. -/
structure Exact (targetHost : String) (targetPort : UInt16) (reply : List (List UInt8)) :
    Prop where
  taken : (connectViaHttpConnect targetHost targetPort reply).result = .ok () ↔
    ∃ header, IsHeader reply.flatten header ∧ header.length ≤ maxHeaderBytes ∧
      StatusOk (firstLine header)
  unread : ∀ header, IsHeader reply.flatten header → header.length ≤ maxHeaderBytes →
    reply.flatten
      = header ++ (connectViaHttpConnect targetHost targetPort reply).unread.flatten
  limited : (∀ header, IsHeader reply.flatten header → maxHeaderBytes < header.length) →
    ∃ error, (connectViaHttpConnect targetHost targetPort reply).result = .error error ∧
      (connectViaHttpConnect targetHost targetPort reply).unread.flatten
        = reply.flatten.drop maxHeaderBytes

/-- **The tunnel is taken exactly when it should be, unless ` 200 ` stands in another place of the
status line**; the limit and the end of the header are kept in any case, however the reply
arrives. -/
theorem connectViaHttpConnect_exact (targetHost : String) (targetPort : UInt16)
    (reply : List (List UInt8)) :
    Exact targetHost targetPort reply ↔
      ∀ header, IsHeader reply.flatten header → header.length ≤ maxHeaderBytes →
        accepted <:+: firstLine header → StatusOk (firstLine header) := by
  have hresult := result_eq_ok targetHost targetPort reply
  constructor
  · rintro ⟨htaken, -, -⟩ header hheader hle hinfix
    obtain ⟨header', hheader', -, hok⟩ := htaken.mp (hresult.mpr ⟨header, hheader, hle, hinfix⟩)
    rwa [hheader.unique hheader']
  · intro hplace
    refine ⟨?_, fun header hheader hle => ?_, fun hlong => ?_⟩
    · rw [hresult]
      exact exists_congr fun header => and_congr_right fun hheader => and_congr_right fun hle =>
        ⟨hplace header hheader hle, StatusOk.infix⟩
    · rcases readHttpHeader_cases reply with ⟨header', hheader', -, -, hrest⟩ | ⟨hnone, -, -⟩
      · rwa [hheader.unique hheader']
      · exact absurd hle (Nat.not_le_of_lt (hnone header hheader))
    · rcases readHttpHeader_cases reply with ⟨header, hheader, hle, -, -⟩ |
        ⟨-, ⟨error, herror⟩, hrest⟩
      · exact absurd hle (Nat.not_le_of_lt (hlong header hheader))
      · refine ⟨error, ?_, hrest⟩
        rw [connectViaHttpConnect]
        dsimp only
        rw [herror]

theorem firstLine_starts (text : List UInt8) : firstLine text <+: text := by
  unfold firstLine
  dsimp only
  split_ifs
  · exact (List.dropLast_prefix _).trans (List.takeWhile_prefix _)
  · exact List.takeWhile_prefix _

theorem StatusOk.getElem?_code {bs : List UInt8} (h : StatusOk bs) : bs[9]? = some 50 := by
  obtain ⟨minor, reason, -, -, rfl⟩ := h
  rfl

/-- **A refusal that mentions the code is taken for a tunnel.** -/
theorem refusal_taken :
    ¬ Exact "host" 22 [(Str.ofString "HTTP/1.1 502 upstream said 200 OK\r\n\r\n").bytes] := by
  rintro ⟨htaken, -, -⟩
  obtain ⟨header, hheader, -, hok⟩ := htaken.mp (by decide +kernel)
  obtain ⟨more, hmore⟩ := (firstLine_starts header).trans hheader.front
  have hlong : 9 < (firstLine header).length :=
    (List.getElem?_eq_some_iff.mp hok.getElem?_code).1
  have hcode : (firstLine header ++ more)[9]? = _ := congrArg (fun bytes => bytes[9]?) hmore
  rw [List.getElem?_append_left hlong, hok.getElem?_code] at hcode
  exact absurd hcode (by decide +kernel)

end HttpConnect
end Remote
end HelmSsh
