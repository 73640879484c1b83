/-
# SOCKS5, as a client and as a server

`connect_via_socks5` and `handle_socks5` of `src-tauri/src/remote/proxy.rs`: the handshake of a
connection through a SOCKS5 proxy, and that of a dynamic forward, which is such a proxy.  Both
read exactly the bytes that they need, in the order of the protocol.  The timeouts are left out:
each ends a handshake with an error.

The server does not look at the reserved byte of a request.

* `socks_agreement` — the two understand each other in every run, and what follows the handshake
  is left unread; and a channel is opened for the requests that `AddressText` describes only;
* `reserved_byte_accepted` — a request with a reserved byte that is not 0 is accepted.
-/

import HelmSsh.Conversation
import HelmSsh.LittleEndian
import Mathlib.Data.String.Basic

namespace HelmSsh
namespace Remote
namespace Socks

open Process

/-! ### Addresses -/

/-- `to_be_bytes` of a port. -/
def portBytes (port : UInt16) : List UInt8 :=
  (LittleEndian.bytes 2 port.toNat).reverse

/-- `u16::from_be_bytes`. -/
def portOf (bytes : List UInt8) : UInt16 :=
  UInt16.ofNat (LittleEndian.value bytes.reverse)

/-- `as_bytes`. -/
def hostBytes (host : String) : List UInt8 :=
  host.toByteArray.data.toList

/-- `String::from_utf8`. -/
def hostOf (bytes : List UInt8) : Option String :=
  String.fromUTF8? ⟨bytes.toArray⟩

/-- `Ipv4Addr::to_string`. -/
def ipv4Text (addr : List UInt8) : String :=
  String.intercalate "." (addr.map fun byte => toString byte.toNat)

/-- The segments of an `Ipv6Addr`. -/
def segments : List UInt8 → List ℕ
  | high :: low :: addr => (high.toNat * 256 + low.toNat) :: segments addr
  | _ => []

/-- A span of segments. -/
structure Span where
  start : ℕ
  len : ℕ
  deriving DecidableEq

/-- The first of the longest spans of zeros, and the one that is going on. -/
def zeroSpans (s : Span × Span) (segment : ℕ × ℕ) : Span × Span :=
  if segment.1 = 0 then
    let current : Span := ⟨if s.2.len = 0 then segment.2 else s.2.start, s.2.len + 1⟩
    (if s.1.len < current.len then current else s.1, current)
  else (s.1, ⟨0, 0⟩)

/-- Some segments in hexadecimal digits. -/
def segmentsText (segments : List ℕ) : String :=
  String.intercalate ":" (segments.map fun segment => String.ofList (Nat.toDigits 16 segment))

/-- `Ipv6Addr::to_string`. -/
def ipv6Text (addr : List UInt8) : String :=
  if addr.take 12 = [0, 0, 0, 0, 0, 0, 0, 0, 0, 0, 0xff, 0xff] then
    "::ffff:" ++ ipv4Text (addr.drop 12)
  else
    let all := segments addr
    let zeroes := (all.zipIdx.foldl zeroSpans (⟨0, 0⟩, ⟨0, 0⟩)).1
    if 1 < zeroes.len then
      segmentsText (all.take zeroes.start) ++ "::" ++
        segmentsText (all.drop (zeroes.start + zeroes.len))
    else segmentsText all

example : ipv6Text [0x20, 1, 0xd, 0xb8, 0, 0, 0, 0, 0, 0, 0, 0, 0, 0, 0, 1] = "2001:db8::1" := by
  decide

/-! ### The client -/

/-- The address of a reply. -/
def skipAddress (kind : UInt8) : Process String (List UInt8) :=
  if kind = 1 then readExact 4
  else if kind = 3 then do
    let len ← readExact 1
    readExact (len.getD 0 0).toNat
  else if kind = 4 then readExact 16
  else .fail "SOCKS5 代理返回了不支持的地址类型"

/-- The request. -/
def request (targetHost : String) (targetPort : UInt16) : List UInt8 :=
  [5, 1, 0, 3, UInt8.ofNat targetHost.utf8ByteSize] ++ hostBytes targetHost ++ portBytes targetPort

/-- `connect_via_socks5`, from the connection to the proxy on. -/
def connectViaSocks5 (targetHost : String) (targetPort : UInt16) : Process String Unit :=
  if 255 < targetHost.utf8ByteSize then .fail "SOCKS5 目标主机名过长"
  else do
    Process.writeAll [5, 1, 0]
    let response ← readExact 2
    if response ≠ [5, 0] then .fail "SOCKS5 代理拒绝无认证连接"
    else do
      Process.writeAll (request targetHost targetPort)
      let header ← readExact 4
      if header.getD 0 0 ≠ 5 ∨ header.getD 1 0 ≠ 0 then
        .fail ("SOCKS5 代理连接失败: " ++ toString (header.getD 1 0).toNat)
      else do
        let _ ← skipAddress (header.getD 3 0)
        let _ ← readExact 2
        pure ()

/-! ### The server -/

/-- The host of a request. -/
def readHost (kind : UInt8) : Process String String :=
  if kind = 1 then do
    let addr ← readExact 4
    pure (ipv4Text addr)
  else if kind = 3 then do
    let len ← readExact 1
    if len.getD 0 0 = 0 then .fail "SOCKS5 目标主机名为空"
    else do
      let name ← readExact (len.getD 0 0).toNat
      match hostOf name with
      | some host => pure host
      | none => .fail "SOCKS5 目标主机名不是 UTF-8"
  else if kind = 4 then do
    let addr ← readExact 16
    pure (ipv6Text addr)
  else do
    Process.writeAll [5, 8, 0, 1, 0, 0, 0, 0, 0, 0]
    .fail "SOCKS5 地址类型不支持"

/-- The request of the client. -/
def readRequest : Process String (String × UInt16) := do
  let header ← readExact 4
  if header.getD 0 0 ≠ 5 then .fail "SOCKS5 请求版本无效"
  else if header.getD 1 0 ≠ 1 then do
    Process.writeAll [5, 7, 0, 1, 0, 0, 0, 0, 0, 0]
    .fail "SOCKS5 仅支持 CONNECT"
  else do
    let host ← readHost (header.getD 3 0)
    let port ← readExact 2
    if portOf port = 0 then .fail "SOCKS5 目标端口无效"
    else pure (host, portOf port)

/-- The handshake up to the target. -/
def readTarget : Process String (String × UInt16) := do
  let greeting ← readExact 2
  if greeting.getD 0 0 ≠ 5 then .fail "仅支持 SOCKS5"
  else do
    let methods ← readExact (greeting.getD 1 0).toNat
    if 0 ∉ methods then do
      Process.writeAll [5, 0xff]
      .fail "SOCKS5 客户端未提供无认证方式"
    else do
      Process.writeAll [5, 0]
      readRequest

/-- The channel to a target, and the reply. -/
def openTarget (openChannel : String × UInt16 → Except String Unit) (target : String × UInt16) :
    Process String (String × UInt16) :=
  match openChannel target with
  | .ok () => do
    Process.writeAll [5, 0, 0, 1, 0, 0, 0, 0, 0, 0]
    pure target
  | .error error => do
    Process.writeAll [5, 5, 0, 1, 0, 0, 0, 0, 0, 0]
    .fail error

/-- `handle_socks5`, with what `open_direct_tcpip_channel` returns. -/
def handleSocks5 (openChannel : String × UInt16 → Except String Unit) :
    Process String (String × UInt16) := do
  let target ← readTarget
  openTarget openChannel target

theorem portOf_portBytes (port : UInt16) : portOf (portBytes port) = port := by
  rw [portOf, portBytes, List.reverse_reverse, LittleEndian.value_bytes port.toNat_lt]
  exact UInt16.ofNat_toNat

theorem length_portBytes (port : UInt16) : (portBytes port).length = 2 := by
  rw [portBytes, List.length_reverse, LittleEndian.length_bytes]

theorem length_hostBytes (host : String) : (hostBytes host).length = host.utf8ByteSize := by
  rw [hostBytes, Array.length_toList]
  rfl

variable {host : String} {port : UInt16}

/-- **The host of some bytes** is the one that has these bytes. -/
theorem hostOf_eq_some {bytes : List UInt8} :
    hostOf bytes = some host ↔ bytes = hostBytes host := by
  rw [hostOf, String.fromUTF8?]
  split_ifs with hvalid
  · rw [Option.some.injEq, ← String.toByteArray_inj]
    constructor
    · intro h
      rw [hostBytes, ← h]
      rfl
    · intro h
      subst h
      rfl
  · refine iff_of_false (by simp) fun h => hvalid ?_
    rw [h]
    exact host.isValidUTF8

/-! ### The two together -/

theorem request_eq (host : String) (port : UInt16) : request host port =
    [5, 1, 0, 3] ++ ([UInt8.ofNat host.utf8ByteSize] ++ (hostBytes host ++ portBytes port)) := by
  simp only [request, List.cons_append, List.nil_append]

theorem toNat_lengthByte (hle : host.utf8ByteSize ≤ 255) :
    (UInt8.ofNat host.utf8ByteSize).toNat = host.utf8ByteSize := by
  rw [UInt8.toNat_ofNat']
  omega

theorem lengthByte_ne_zero (hne : host ≠ "") (hle : host.utf8ByteSize ≤ 255) :
    UInt8.ofNat host.utf8ByteSize ≠ 0 := by
  intro hzero
  have hlen := toNat_lengthByte hle
  rw [hzero] at hlen
  exact hne (String.utf8ByteSize_eq_zero_iff.mp hlen.symm)

theorem converse_readHost {α β : Type} (hne : host ≠ "")
    (hle : host.utf8ByteSize ≤ 255) {p : Process String α} {xs ys : List UInt8} {a : α} {b : β}
    {f : String → Process String β} (h : Converse p xs (f host) ys a b) :
    Converse p xs ((readHost 3).bind f)
      ([UInt8.ofNat host.utf8ByteSize] ++ (hostBytes host ++ ys)) a b := by
  refine .rightReads [UInt8.ofNat host.utf8ByteSize] rfl ?_
  show Converse p xs ((if UInt8.ofNat host.utf8ByteSize = 0 then _ else _ : Process _ _).bind f)
    _ a b
  rw [if_neg (lengthByte_ne_zero hne hle)]
  refine .rightReads (hostBytes host) ((length_hostBytes host).trans (toNat_lengthByte hle).symm) ?_
  show Converse p xs ((match hostOf (hostBytes host) with
    | some host => (pure host : Process String String)
    | none => .fail "SOCKS5 目标主机名不是 UTF-8").bind f) ys a b
  rw [hostOf_eq_some.mpr rfl]
  exact h

/-- **A request is understood**: the client and the server, with what they write to each other. -/
theorem converse_connect (hne : host ≠ "") (hle : host.utf8ByteSize ≤ 255) (hport : port ≠ 0)
    {openChannel : String × UInt16 → Except String Unit}
    (hopen : openChannel (host, port) = .ok ()) :
    Converse (connectViaSocks5 host port) [] (handleSocks5 openChannel) [] () (host, port) := by
  rw [connectViaSocks5, if_neg (Nat.not_lt.mpr hle)]
  -- the greeting, and its answer
  refine .leftWrites ?_
  refine .rightReads [5, 1] rfl ?_
  refine .rightReads [0] rfl ?_
  refine .rightWrites ?_
  refine .leftReads [5, 0] rfl ?_
  -- the request
  refine .leftWrites ?_
  rw [request_eq, List.nil_append]
  refine .rightReads [5, 1, 0, 3] rfl ?_
  show Converse _ [] (((readHost 3).bind fun host => (readExact 2).bind fun port =>
    if portOf port = 0 then .fail "SOCKS5 目标端口无效" else pure (host, portOf port)).bind _) _ _ _
  rw [bind_assoc]
  refine converse_readHost hne hle ?_
  refine .rightReads (portBytes port) (length_portBytes port) ?_
  show Converse _ [] ((if portOf (portBytes port) = 0 then .fail "SOCKS5 目标端口无效"
    else pure (host, portOf (portBytes port)) : Process _ _).bind (openTarget openChannel)) _ _ _
  rw [portOf_portBytes, if_neg hport]
  show Converse _ [] (openTarget openChannel (host, port)) _ _ _
  rw [openTarget, hopen]
  -- the reply
  refine .rightWrites ?_
  refine .leftReads [5, 0, 0, 1] rfl ?_
  refine .leftReads [0, 0, 0, 0] rfl ?_
  refine .leftReads [0, 0] rfl ?_
  exact .done () (host, port)

/-! ### The requests that are accepted -/

/-- **The text of an address**, by the kind of the address. -/
inductive AddressText : UInt8 → List UInt8 → String → Prop
  | ipv4 {addr : List UInt8} (hlength : addr.length = 4) : AddressText 1 addr (ipv4Text addr)
  | domain {host : String} (hne : host ≠ "") (hle : host.utf8ByteSize ≤ 255) :
    AddressText 3 (UInt8.ofNat host.utf8ByteSize :: hostBytes host) host
  | ipv6 {addr : List UInt8} (hlength : addr.length = 16) : AddressText 4 addr (ipv6Text addr)

/-- **A CONNECT request with its greeting**, this reserved byte, and what follows. -/
def Connect (reserved : UInt8) (input : List UInt8) (target : String × UInt16)
    (rest : List UInt8) : Prop :=
  ∃ methods kind address, methods.length ≤ 255 ∧ 0 ∈ methods ∧ target.2 ≠ 0 ∧
    AddressText kind address target.1 ∧
    input = [5, UInt8.ofNat methods.length] ++ (methods ++ ([5, 1, reserved, kind] ++
      (address ++ (portBytes target.2 ++ rest))))

theorem portBytes_portOf {bytes : List UInt8} (hlength : bytes.length = 2) :
    portBytes (portOf bytes) = bytes := by
  have hlt := LittleEndian.value_lt bytes.reverse
  have hback := LittleEndian.bytes_value bytes.reverse
  rw [List.length_reverse, hlength] at hlt hback
  have hvalue : (UInt16.ofNat (LittleEndian.value bytes.reverse)).toNat =
      LittleEndian.value bytes.reverse := by
    rw [UInt16.toNat_ofNat']
    exact Nat.mod_eq_of_lt hlt
  rw [portBytes, portOf, hvalue, hback, List.reverse_reverse]

/-- **The addresses that are read.** -/
theorem accepts_readHost {kind : UInt8} {input rest : List UInt8} :
    (readHost kind).Accepts input host rest ↔
      ∃ address, AddressText kind address host ∧ input = address ++ rest := by
  unfold readHost
  constructor
  · intro h
    split_ifs at h with hipv4 hdomain hipv6
    · obtain ⟨addr, more, haddr, hdone⟩ := accepts_bind.mp h
      obtain ⟨hlength, rfl⟩ := accepts_readExact.mp haddr
      obtain ⟨rfl, rfl⟩ := accepts_done.mp hdone
      exact hipv4 ▸ ⟨addr, .ipv4 hlength, rfl⟩
    · obtain ⟨len, more, hlen, hbody⟩ := accepts_bind.mp h
      obtain ⟨hlength, rfl⟩ := accepts_readExact.mp hlen
      obtain ⟨len, rfl⟩ := List.length_eq_one_iff.mp hlength
      change Accepts (if len = 0 then _ else _ : Process String String) more host rest at hbody
      split_ifs at hbody with hzero
      · exact absurd hbody not_accepts_fail
      obtain ⟨name, more', hname, htext⟩ := accepts_bind.mp hbody
      obtain ⟨hlength, rfl⟩ := accepts_readExact.mp hname
      change name.length = len.toNat at hlength
      cases hhost : hostOf name with
      | none =>
        rw [hhost] at htext
        exact absurd htext not_accepts_fail
      | some name' =>
        rw [hhost] at htext
        obtain ⟨rfl, rfl⟩ := accepts_done.mp htext
        obtain rfl := hostOf_eq_some.mp hhost
        rw [length_hostBytes] at hlength
        have hlen : UInt8.ofNat host.utf8ByteSize = len := by
          rw [hlength]
          exact UInt8.ofNat_toNat
        refine hdomain ▸ ⟨_, .domain (fun hempty => hzero ?_) ?_, ?_⟩
        · rw [← hlen, hempty]
          rfl
        · exact hlength ▸ Nat.le_of_lt_succ len.toNat_lt
        · rw [hlen]
          rfl
    · obtain ⟨addr, more, haddr, hdone⟩ := accepts_bind.mp h
      obtain ⟨hlength, rfl⟩ := accepts_readExact.mp haddr
      obtain ⟨rfl, rfl⟩ := accepts_done.mp hdone
      exact hipv6 ▸ ⟨addr, .ipv6 hlength, rfl⟩
    · obtain ⟨_, _, -, hfail⟩ := accepts_bind.mp h
      exact absurd hfail not_accepts_fail
  · rintro ⟨address, htext, rfl⟩
    cases htext with
    | ipv4 hlength | ipv6 hlength =>
      exact accepts_bind.mpr ⟨address, rest, accepts_readExact.mpr ⟨hlength, rfl⟩, .done _ rest⟩
    | domain hne hle =>
      refine accepts_bind.mpr ⟨[UInt8.ofNat host.utf8ByteSize], hostBytes host ++ rest,
        accepts_readExact.mpr ⟨rfl, rfl⟩, ?_⟩
      show Accepts (if UInt8.ofNat host.utf8ByteSize = 0 then _ else _ : Process _ _) _ host rest
      rw [if_neg (lengthByte_ne_zero hne hle)]
      refine accepts_bind.mpr ⟨hostBytes host, rest, accepts_readExact.mpr
        ⟨(length_hostBytes host).trans (toNat_lengthByte hle).symm, rfl⟩, ?_⟩
      rw [hostOf_eq_some.mpr rfl]
      exact .done host rest

/-- **The requests that are read.** -/
theorem accepts_readRequest {input rest : List UInt8} {target : String × UInt16} :
    readRequest.Accepts input target rest ↔ ∃ reserved kind address, target.2 ≠ 0 ∧
      AddressText kind address target.1 ∧
        input = [5, 1, reserved, kind] ++ (address ++ (portBytes target.2 ++ rest)) := by
  unfold readRequest
  constructor
  · intro h
    obtain ⟨header, more, hheader, hbody⟩ := accepts_bind.mp h
    obtain ⟨hlength, rfl⟩ := accepts_readExact.mp hheader
    obtain ⟨version, command, reserved, kind, rfl⟩ := List.length_eq_four.mp hlength
    change Accepts (if version ≠ 5 then _ else if command ≠ 1 then _ else _ : Process _ _) more
      target rest at hbody
    split_ifs at hbody with hversion hcommand
    · exact absurd hbody not_accepts_fail
    · obtain ⟨_, _, -, hfail⟩ := accepts_bind.mp hbody
      exact absurd hfail not_accepts_fail
    obtain ⟨host, more', hhost, hport⟩ := accepts_bind.mp hbody
    obtain ⟨address, htext, rfl⟩ := accepts_readHost.mp hhost
    obtain ⟨port, more'', hbytes, hend⟩ := accepts_bind.mp hport
    obtain ⟨htwo, rfl⟩ := accepts_readExact.mp hbytes
    split_ifs at hend with hzero
    · exact absurd hend not_accepts_fail
    obtain ⟨rfl, rfl⟩ := accepts_done.mp hend
    refine ⟨reserved, kind, address, hzero, htext, ?_⟩
    rw [not_not.mp hversion, not_not.mp hcommand, portBytes_portOf htwo]
  · rintro ⟨reserved, kind, address, hport, htext, rfl⟩
    refine accepts_bind.mpr ⟨[5, 1, reserved, kind], _, accepts_readExact.mpr ⟨rfl, rfl⟩, ?_⟩
    show Accepts (if (5 : UInt8) ≠ 5 then _ else if (1 : UInt8) ≠ 1 then _ else _ : Process _ _)
      _ _ _
    rw [if_neg (by decide), if_neg (by decide)]
    refine accepts_bind.mpr ⟨target.1, _, accepts_readHost.mpr ⟨address, htext, rfl⟩, ?_⟩
    refine accepts_bind.mpr ⟨portBytes target.2, rest,
      accepts_readExact.mpr ⟨length_portBytes target.2, rfl⟩, ?_⟩
    rw [portOf_portBytes, if_neg hport]
    exact .done target rest

/-- **The handshakes that are accepted** are the CONNECT requests, with any reserved byte. -/
theorem accepts_readTarget {input rest : List UInt8} {target : String × UInt16} :
    readTarget.Accepts input target rest ↔ ∃ reserved, Connect reserved input target rest := by
  unfold readTarget
  constructor
  · intro h
    obtain ⟨greeting, more, hgreeting, hbody⟩ := accepts_bind.mp h
    obtain ⟨hlength, rfl⟩ := accepts_readExact.mp hgreeting
    obtain ⟨version, count, rfl⟩ := List.length_eq_two.mp hlength
    change Accepts (if version ≠ 5 then _ else _ : Process _ _) more target rest at hbody
    split_ifs at hbody with hversion
    · exact absurd hbody not_accepts_fail
    obtain ⟨methods, more', hmethods, hrequest⟩ := accepts_bind.mp hbody
    obtain ⟨hcount, rfl⟩ := accepts_readExact.mp hmethods
    change methods.length = count.toNat at hcount
    split_ifs at hrequest with hmethod
    · obtain ⟨_, more'', hwrite, hend⟩ := accepts_bind.mp hrequest
      obtain rfl := accepts_writeAll.mp hwrite
      obtain ⟨reserved, kind, address, hport, htext, rfl⟩ := accepts_readRequest.mp hend
      refine ⟨reserved, methods, kind, address, ?_, hmethod, hport, htext, ?_⟩
      · exact hcount ▸ Nat.le_of_lt_succ count.toNat_lt
      · rw [not_not.mp hversion, hcount, UInt8.ofNat_toNat]
    · obtain ⟨_, _, -, hfail⟩ := accepts_bind.mp hrequest
      exact absurd hfail not_accepts_fail
  · rintro ⟨reserved, methods, kind, address, hle, hmethod, hport, htext, rfl⟩
    have hcount : (UInt8.ofNat methods.length).toNat = methods.length := by
      rw [UInt8.toNat_ofNat']
      omega
    refine accepts_bind.mpr ⟨[5, UInt8.ofNat methods.length], _,
      accepts_readExact.mpr ⟨rfl, rfl⟩, ?_⟩
    show Accepts (if (5 : UInt8) ≠ 5 then _ else _ : Process _ _) _ _ _
    rw [if_neg (by decide)]
    refine accepts_bind.mpr ⟨methods, _, accepts_readExact.mpr ⟨hcount.symm, rfl⟩, ?_⟩
    rw [if_neg (not_not.mpr hmethod)]
    refine accepts_bind.mpr ⟨(), _, accepts_writeAll.mpr rfl, ?_⟩
    exact accepts_readRequest.mpr ⟨reserved, kind, address, hport, htext, rfl⟩

theorem connect_request (hne : host ≠ "")
    (hle : host.utf8ByteSize ≤ 255) (hport : port ≠ 0) (rest : List UInt8) :
    Connect 0 ([5, 1, 0] ++ request host port ++ rest) (host, port) rest := by
  refine ⟨[0], 3, _, by decide, by decide, hport, .domain hne hle, ?_⟩
  rw [request_eq]
  simp only [List.cons_append, List.nil_append, List.append_assoc]
  rfl

/-- **The client and the server agree.**  They understand each other in every run, with the host
and the port of the client.  What the client writes, in whatever pieces it arrives and whatever
comes behind it, is read as this host and this port, up to its last byte.  And a channel is opened
for a CONNECT request only, with the text of its address. -/
theorem socks_agreement {host : String} {port : UInt16} (hne : host ≠ "")
    (hle : host.utf8ByteSize ≤ 255) (hport : port ≠ 0) :
    (∀ openChannel, openChannel (host, port) = .ok () → ∀ events s,
      (conversation (connectViaSocks5 host port) (handleSocks5 openChannel)).run events = some s →
        s.Converges () (host, port)) ∧
    (∀ events s more target, (listening readTarget).run events = some s →
      s.arrived = [5, 1, 0] ++ request host port ++ more → s.party.process = .done target →
        target = (host, port) ∧ s.unread = more) ∧
    (∀ events s target, (listening readTarget).run events = some s →
      s.party.process = .done target → ∃ reserved, Connect reserved s.arrived target s.unread) := by
  refine ⟨fun openChannel hopen events s hrun => ?_,
    fun events s more target hrun harrived hdone => ?_,
    fun events s target hrun hdone => accepts_readTarget.mp (accepts_of_run hrun hdone)⟩
  · exact (agreed_of_run (converse_connect hne hle hport hopen) hrun).converges
  · have hread := accepts_of_run hrun hdone
    rw [harrived] at hread
    exact hread.unique (accepts_readTarget.mpr ⟨0, connect_request hne hle hport more⟩)

/-- The handshake for a short name, up to its end. -/
def shortHandshake : List NetEvent :=
  [.left .write, .right (.receive 2), .right .proceed, .right (.receive 1), .right .proceed,
    .right .write, .left (.receive 2), .left .proceed, .left .write, .right (.receive 4),
    .right .proceed, .right (.receive 1), .right .proceed, .right (.receive 1), .right .proceed,
    .right (.receive 2), .right .proceed, .right .write, .left (.receive 4), .left .proceed,
    .left (.receive 4), .left .proceed, .left (.receive 2), .left .proceed]

theorem socks_agreement_short : ∃ s,
    (conversation (connectViaSocks5 "a" 80) (handleSocks5 fun _ => .ok ())).run shortHandshake
      = some s ∧
    s.left.process = .done () ∧ s.right.process = .done ("a", 80) ∧ s.Converges () ("a", 80) := by
  refine ⟨_, rfl, rfl, rfl, ?_⟩
  exact (socks_agreement (by decide) (by decide) (by decide)).1 (fun _ => .ok ()) rfl
    shortHandshake _ rfl

/-- **The reserved byte is not looked at**: a request in which it is not 0 is accepted. -/
theorem reserved_byte_accepted : ¬ ∀ events s target,
    (listening readTarget).run events = some s → s.party.process = .done target →
      Connect 0 s.arrived target s.unread := by
  intro h
  let events : List ListenerEvent := [.arrive [5, 1, 0, 5, 1, 7, 3, 1, 97, 0, 80],
    .move (.receive 2), .move .proceed, .move (.receive 1), .move .proceed, .move .write,
    .move (.receive 4), .move .proceed, .move (.receive 1), .move .proceed, .move (.receive 1),
    .move .proceed, .move (.receive 2), .move .proceed]
  obtain ⟨s, hs, hdone, harrived⟩ : ∃ s, (listening readTarget).run events = some s ∧
      s.party.process = .done ("a", 80) ∧ s.arrived = [5, 1, 0, 5, 1, 7, 3, 1, 97, 0, 80] :=
    ⟨_, rfl, rfl, rfl⟩
  obtain ⟨methods, kind, address, hle, -, -, -, heq⟩ := h events s _ hs hdone
  rw [harrived] at heq
  simp only [List.cons_append, List.nil_append, List.cons.injEq, true_and] at heq
  obtain ⟨hcount, heq⟩ := heq
  have hone : methods.length = 1 := by
    have hnat := congrArg UInt8.toNat hcount
    rw [UInt8.toNat_ofNat', Nat.mod_eq_of_lt (Nat.lt_succ_of_le hle)] at hnat
    exact hnat.symm
  obtain ⟨m, rfl⟩ := List.length_eq_one_iff.mp hone
  simp at heq

end Socks
end Remote
end HelmSsh
