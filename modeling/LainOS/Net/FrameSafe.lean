import LainOS.Net.ReceiveSafe

/-!
# The receive path stays inside the frame

The handlers of DHCP and DNS packets, and with them the whole receive path: in a valid state,
whatever frame arrives, no parser reads outside of it or writes outside a buffer, every loop ends,
and the state is valid again (`receiveFrame_safe`).
-/

namespace Net

open Checked List Option

variable {offset capacity : ℕ} {c : NameCursor} {wait : DnsWait} {device remoteIp seq : UInt32}
  {localPort remotePort : UInt16} {payload : List UInt8} {i n size : ℕ} {index : UInt32}
  {st : State}

/-! ### DHCP -/

lemma dhcpOption_safe (code : UInt8) {len : UInt8} (hlen : offset + len.toNat ≤ payload.length)
    (options : DhcpOptions) : Gets (fun _ => True) (dhcpOption payload offset code len options) := by
  have hword (h : 4 ≤ len) : Gets (fun _ => True) (be32 payload offset) :=
    gets_be32 ((Nat.add_le_add_left (UInt8.le_iff_toNat_le.mp h) offset).trans hlen)
  rw [dhcpOption]
  split_ifs with htype hserver hmask hrouter hdns
  · have hpos : 1 ≤ len.toNat := UInt8.le_iff_toNat_le.mp htype.2
    exact (gets_read (by omega)).map fun _ _ => ⟨_, rfl, trivial⟩
  · exact (hword hserver.2).map fun _ _ => ⟨_, rfl, trivial⟩
  · exact (hword hmask.2).map fun _ _ => ⟨_, rfl, trivial⟩
  · exact (hword hrouter.2).map fun _ _ => ⟨_, rfl, trivial⟩
  · exact (hword hdns.2).map fun _ _ => ⟨_, rfl, trivial⟩
  · exact ⟨options, rfl, trivial⟩

/-- The offset grows with every pass, so that the loop ends. -/
lemma dhcpOptions_safe (hsize : size ≤ payload.length) (hn : size - offset < n)
    (options : DhcpOptions) : Gets (fun _ => True) (dhcpOptions payload size n offset options) := by
  induction n generalizing offset options with
  | zero => omega
  | succ n ih =>
    rw [dhcpOptions]
    split_ifs with hend
    · exact ⟨options, rfl, trivial⟩
    refine (gets_read (by omega)).bind fun code _ => ?_
    split_ifs with hpad hlast
    · exact ih (by omega) options
    · exact ⟨options, rfl, trivial⟩
    rw [not_or, not_le] at hlast
    refine (gets_read (by omega)).bind fun len _ => ?_
    split_ifs with hlong
    · exact ⟨options, rfl, trivial⟩
    · exact (dhcpOption_safe code (by omega) options).bind fun options' _ => ih (by omega) options'

lemma handleDhcp_safe (h : st.Valid) (hsize : size ≤ payload.length) :
    Handled (handleDhcp st index payload size) := by
  rw [handleDhcp]
  split_ifs with hshort
  · exact .pure h
  have hlong : 240 ≤ size := by
    simp only [not_or, not_lt] at hshort
    exact hshort.2.2
  refine (gets_read).bind fun op _ => (gets_read).bind fun htype _ =>
    (gets_read).bind fun hlen _ => (gets_be32).bind fun xid _ =>
    (gets_be32).bind fun magic _ => ?_
  split_ifs
  · exact .pure h
  refine (dhcpOptions_safe hsize (by omega) _).bind fun options _ => ?_
  split_ifs
  · exact .pure h
  · exact (gets_be32).bind fun yiaddr _ =>
      .pure ⟨h.mac, h.tcpGet, h.tcpStream, h.cname, h.recordName⟩

/-! ### DNS names -/

/-- A buffer of `capacity` bytes, with the name so far ending at `outPos`. -/
structure NameBuffer (capacity outPos : ℕ) (buf : List UInt8) : Prop where
  length : buf.length = capacity
  ended : 0 < capacity → buf[outPos]? = some 0

/-- The buffer has its size; if the name was read, it ends inside. -/
structure NameResult.Valid (capacity : ℕ) (r : NameResult) : Prop where
  length : r.out.length = capacity
  ended : r.ok = true → 0 < capacity → (0 : UInt8) ∈ r.out

lemma nameDot_safe (buf : List UInt8) (outPos : ℕ) :
    Gets (∀ r ∈ ·, r.1.length = buf.length) (nameDot buf outPos) := by
  rw [nameDot]
  split_ifs with hfirst hfull
  · exact ⟨_, rfl, by rintro r ⟨⟩; rfl⟩
  · exact ⟨none, rfl, fun r hr => absurd hr (by simp)⟩
  · exact (gets_write (by omega)).map fun buf' hbuf => ⟨_, rfl, by rintro r ⟨⟩; exact hbuf.1⟩

/-- What holds of the cursor that a label leaves, or fails with. -/
def LabelResult (capacity : ℕ) (c : NameCursor) : Except NameCursor NameCursor → Prop
  | .error c' => c'.out.length = capacity
  | .ok c' => NameBuffer capacity c'.outPos c'.out ∧ c'.pos = c.pos ∧ c'.jumpCount = c.jumpCount

lemma nameLabel_safe {len : ℕ} (hbuf : NameBuffer capacity c.outPos c.out)
    (hlen : c.pos + len ≤ payload.length) :
    Gets (LabelResult capacity c) (nameLabel payload len c) := by
  have hlength := hbuf.length
  rw [nameLabel]
  split_ifs with hempty
  · exact ⟨.ok c, rfl, hbuf, rfl, rfl⟩
  refine (nameDot_safe c.out c.outPos).bind fun dotted hdotted => ?_
  rcases dotted with _ | dotted
  · exact ⟨.error c, rfl, hlength⟩
  obtain ⟨buf₁, outPos⟩ := dotted
  have hlength₁ : buf₁.length = c.out.length := hdotted _ rfl
  simp only
  split_ifs with hfull
  · exact ⟨_, rfl, hlength₁.trans hlength⟩
  · exact (gets_copy (by omega) hlen).bind fun buf₂ hlength₂ =>
      (gets_write (by omega)).bind fun buf₃ h₃ => ⟨_, rfl,
        ⟨h₃.1.trans (hlength₂.trans (hlength₁.trans hlength)), fun _ => h₃.2⟩, rfl, rfl⟩

/-- The passes left to the loop that reads a name: a jump can lead back to the start, but only eight
of them are followed. -/
def namePasses (size : ℕ) (c : NameCursor) : ℕ :=
  (8 - c.jumpCount) * (size + 2) + (size - c.pos)

lemma readName_safe (hsize : size ≤ payload.length) (hbuf : NameBuffer capacity c.outPos c.out)
    (hn : namePasses size c < n) :
    Gets (NameResult.Valid capacity) (readName payload size n c) := by
  induction n generalizing c with
  | zero => omega
  | succ n ih =>
    have hfail : ∀ {c : NameCursor}, c.out.length = capacity → c.fail.Valid capacity :=
      fun h => ⟨h, fun hok => absurd hok Bool.false_ne_true⟩
    rw [readName]
    split_ifs with hend
    · exact ⟨_, rfl, hfail hbuf.length⟩
    refine (gets_read (by omega)).bind fun len _ => ?_
    dsimp only
    split_ifs with hzero hjump hcut hlabel
    · exact ⟨_, rfl, hbuf.length, fun _ hcap => mem_of_getElem? (hbuf.ended hcap)⟩
    · exact ⟨_, rfl, hfail hbuf.length⟩
    · refine (gets_read (by omega)).bind fun low _ => ?_
      split_ifs with hbad
      · exact ⟨_, rfl, hfail hbuf.length⟩
      refine ih hbuf ?_
      have hjumps : (8 - c.jumpCount) * (size + 2) =
          (8 - (c.jumpCount + 1)) * (size + 2) + (size + 2) := by
        rw [show 8 - c.jumpCount = 8 - (c.jumpCount + 1) + 1 by omega, Nat.add_mul, Nat.one_mul]
      simp only [namePasses] at hn ⊢
      omega
    · exact ⟨_, rfl, hfail hbuf.length⟩
    · simp only [not_or, not_lt] at hlabel
      refine (nameLabel_safe (c := { c with pos := c.pos + 1 }) hbuf
        (show c.pos + 1 + len.toNat ≤ payload.length by omega)).bind fun result hc => ?_
      rcases result with c' | c'
      · exact ⟨_, rfl, hfail hc⟩
      obtain ⟨hbuf', hpos, hcount⟩ := hc
      refine ih hbuf' ?_
      simp only [namePasses, hpos, hcount] at hn ⊢
      omega

/-- Reading a name ends, whatever its pointers are, and stays inside the packet and the buffer. -/
lemma dnsReadName_safe (out : List UInt8) (hsize : size ≤ payload.length) (offset : ℕ) :
    Gets (NameResult.Valid out.length) (dnsReadName payload size offset out) := by
  rw [dnsReadName]
  split_ifs with hend hempty
  · exact ⟨_, rfl, rfl, fun hok => absurd hok Bool.false_ne_true⟩
  · refine readName_safe (c := ⟨offset, 0, 0, 0, out⟩) hsize ⟨rfl, fun hcap => by omega⟩ ?_
    simp only [namePasses]
    omega
  · refine (gets_write (by omega)).bind fun buf hbuf =>
      readName_safe (c := ⟨offset, 0, 0, 0, buf⟩) hsize ⟨hbuf.1, fun _ => hbuf.2⟩ ?_
    simp only [namePasses]
    omega

/-! ### DNS packets -/

lemma dnsSkipName_safe (hsize : size ≤ payload.length) (offset : ℕ) :
    Gets (fun _ => True) (dnsSkipName payload size offset) :=
  (dnsReadName_safe [] hsize offset).bind fun _ _ => ⟨_, rfl, trivial⟩

lemma skipQuestions_safe (hsize : size ≤ payload.length) (offset : ℕ) :
    Gets (fun _ => True) (skipQuestions payload size n offset) := by
  induction n generalizing offset with
  | zero => exact ⟨_, rfl, trivial⟩
  | succ n ih =>
    refine (dnsSkipName_safe hsize offset).bind fun next _ => ?_
    split_ifs
    · exact ⟨_, rfl, trivial⟩
    · exact ih (next + 4)

/-- The comparison ends at the end of the first name. -/
lemma dnsNameEqual_safe {a b : List UInt8} {k : ℕ} (hk : a[k]? = some 0) (hb : k < b.length)
    (hi : i ≤ k) (hn : k - i < n) : Gets (fun _ => True) (dnsNameEqual a b n i) := by
  induction n generalizing i with
  | zero => omega
  | succ n ih =>
    have hka : k < a.length := (List.getElem?_eq_some_iff.mp hk).1
    refine (gets_read (by omega)).bind fun ca hca => (gets_read (by omega)).bind fun cb _ => ?_
    split_ifs with hend hdiff
    · exact ⟨_, rfl, trivial⟩
    · exact ⟨_, rfl, trivial⟩
    have hne : i ≠ k := by
      rintro rfl
      rw [hk, some.injEq] at hca
      exact hend (.inl hca.symm)
    exact ih (by omega) (by omega)

/-- An address is taken only from a record of four bytes. -/
lemma dnsWanted_safe (counts : DnsCounts) {record : DnsRecord} (hname : record.name.length = 128)
    (hended : (0 : UInt8) ∈ record.name) (hcname : wait.cname.length = 128) :
    Gets (· = true → record.rdlength = 4) (dnsWanted counts i record wait) := by
  rw [dnsWanted]
  split_ifs with hother hanswer hadditional
  · exact ⟨false, rfl, fun h => absurd h Bool.false_ne_true⟩
  · simp only [not_or, not_not] at hother
    exact ⟨true, rfl, fun _ => hother.2.2⟩
  · simp only [not_or, not_not] at hother
    obtain ⟨k, hk⟩ := List.mem_iff_getElem?.mp hended
    have hlt := (List.getElem?_eq_some_iff.mp hk).1
    obtain ⟨equal, hequal, -⟩ := dnsNameEqual_safe (b := wait.cname) hk (by omega) (Nat.zero_le k)
      (n := record.name.length) (by omega)
    exact ⟨equal, hequal, fun _ => hother.2.2⟩
  · exact ⟨false, rfl, fun h => absurd h Bool.false_ne_true⟩

lemma dnsRecord_safe (counts : DnsCounts) (record : DnsRecord) (hsize : size ≤ payload.length)
    (hoffset : offset + record.rdlength.toNat ≤ size) (hname : record.name.length = 128)
    (hended : (0 : UInt8) ∈ record.name) (hcname : wait.cname.length = 128) :
    Gets (·.2.cname.length = 128) (dnsRecord payload size counts i offset record wait) := by
  refine (dnsWanted_safe counts hname hended hcname).bind fun wanted hlength => ?_
  split_ifs with htake halias
  · have hfour : record.rdlength.toNat = 4 := by rw [hlength htake]; rfl
    exact (gets_be32 (by omega)).bind fun ip _ => ⟨_, rfl, hcname⟩
  · refine (dnsReadName_safe wait.cname hsize offset).bind fun r hvalid => ?_
    have hout := hvalid.length.trans hcname
    exact (gets_read (by omega)).bind fun first _ => ⟨_, rfl, hout⟩
  · exact ⟨_, rfl, hcname⟩

/-- The name of a record starts out as whatever stands on the stack, but is used only once read. -/
lemma dnsRecords_safe (counts : DnsCounts) (offset : ℕ) {recordName : List UInt8}
    (hsize : size ≤ payload.length) (hrecord : recordName.length = 128)
    (hcname : wait.cname.length = 128) :
    Gets (·.cname.length = 128) (dnsRecords payload size counts n i offset recordName wait) := by
  induction n generalizing i offset recordName wait with
  | zero => exact ⟨wait, rfl, hcname⟩
  | succ n ih =>
    rw [dnsRecords]
    split_ifs with hend
    · exact ⟨wait, rfl, hcname⟩
    refine (dnsReadName_safe recordName hsize offset).bind fun r hvalid => ?_
    split_ifs with hbad
    · exact ⟨wait, rfl, hcname⟩
    simp only [not_or, not_lt, Bool.not_eq_true', Bool.not_eq_false] at hbad
    obtain ⟨hok, hfits⟩ := hbad
    have hlength := hvalid.length.trans hrecord
    refine (gets_be16).bind fun type _ => (gets_be16).bind fun classCode _ =>
      (gets_be16).bind fun rdlength _ => ?_
    dsimp only
    split_ifs with hlong
    · exact ⟨wait, rfl, hcname⟩
    refine (dnsRecord_safe counts _ hsize (not_lt.mp hlong) hlength
      (hvalid.ended hok (by omega)) hcname).bind fun result hcname' => ?_
    split_ifs
    · exact ⟨_, rfl, hcname'⟩
    · exact ih _ hlength hcname'

section

variable (h : st.Valid)
include h

lemma handleDns_safe (hsize : size ≤ payload.length) :
    Handled (handleDns st index payload size) := by
  rw [handleDns]
  split_ifs with hshort
  · exact .pure h
  have hlong : 12 ≤ size := by
    simp only [not_or, not_lt] at hshort
    exact hshort.2.2
  refine (gets_be16).bind fun id _ => (gets_read).bind fun flags _ =>
    (gets_read).bind fun code _ => ?_
  split_ifs
  · exact .pure h
  refine (gets_be16).bind fun questions _ => (gets_be16).bind fun answers _ =>
    (gets_be16).bind fun authorities _ =>
    (gets_be16).bind fun additionals _ =>
    (skipQuestions_safe hsize 12).bind fun skipped _ => ?_
  cases skipped with
  | none => exact .pure h
  | some offset =>
    exact (dnsRecords_safe _ offset hsize h.recordName h.cname).bind fun wait hcname =>
      .pure ⟨h.mac, h.tcpGet, h.tcpStream, hcname, h.recordName⟩

/-! ### UDP, IPv4 and Ethernet -/

lemma handleUdp_safe {ip : List UInt8} {ipHeaderSize ipTotalSize : ℕ}
    (htotal : ipTotalSize ≤ ip.length) :
    Handled (handleUdp st index ip ipHeaderSize ipTotalSize) := by
  rw [handleUdp]
  split_ifs with hshort
  · exact .pure h
  have hlength : (ip.drop ipHeaderSize).length = ip.length - ipHeaderSize := length_drop
  refine (gets_be16).bind fun srcPort _ => (gets_be16).bind fun dstPort _ =>
    (gets_be16).bind fun udpLength _ => ?_
  split_ifs with hbad hdhcp hdns
  · exact .pure h
  · refine handleDhcp_safe h ?_
    rw [length_drop]
    omega
  · refine handleDns_safe h ?_
    rw [length_drop]
    omega
  · exact .pure h

lemma handleIpv4_safe (hsize : size ≤ payload.length) :
    Handled (handleIpv4 st index payload size) := by
  rw [handleIpv4]
  split_ifs with hshort
  · exact .pure h
  refine (gets_read).bind fun verIhl _ =>
    (gets_be16).bind fun totalLength _ => ?_
  dsimp only
  split_ifs with hbad
  · exact .pure h
  simp only [not_or, not_lt] at hbad
  refine (gets_read).bind fun proto _ => (gets_be32).bind fun dst _ => ?_
  split_ifs with hother htcp hudp
  · exact .pure h
  · exact handleTcp_safe h hbad.2.1 (hbad.2.2.2.trans hsize) totalLength.toNat_lt
  · exact handleUdp_safe h (hbad.2.2.2.trans hsize)
  · exact .pure h

lemma payload_safe (type : UInt16) (frame : List UInt8) (payloadOffset : ℕ) :
    Handled (handlePayload st index type frame payloadOffset) := by
  rw [handlePayload]
  simp only
  split_ifs
  · exact .pure h
  · exact handleArp_safe h length_drop.ge
  · exact handleIpv4_safe h length_drop.ge
  · exact .pure h

lemma receiveFrame_valid (index : UInt32) (frame : List UInt8) :
    Handled (receiveFrame st index frame) := by
  rw [receiveFrame]
  split_ifs with hshort
  · exact .pure h
  rw [not_or, not_lt] at hshort
  refine (gets_be16 (by omega)).bind fun outer _ => ?_
  split_ifs with htagged
  · exact (gets_be16 (by omega)).bind fun type _ => payload_safe h type frame 18
  · exact payload_safe h outer frame 14

end

/-! ### States of the protocols -/

/-- The stream as `net_tcp_stream_connect` sets it up. -/
def TcpStream.start (device remoteIp : UInt32) (localPort remotePort : UInt16) (seq : UInt32)
    (rxBuffer : List UInt8) : TcpStream where
  active := true
  device := device
  remoteIp := remoteIp
  localPort := localPort
  remotePort := remotePort
  seq := seq
  ack := 0
  txAcked := seq
  connected := false
  closed := false
  reset := false
  rxBuffer := rxBuffer
  rxCapacity := UInt32.ofNat rxBuffer.length
  rxSize := 0
  sent := []

/-- The connection as `net_http_get` sets it up. -/
def TcpGet.start (device remoteIp : UInt32) (localPort remotePort : UInt16) (seq : UInt32)
    (out : List UInt8) : TcpGet where
  active := true
  device := device
  remoteIp := remoteIp
  localPort := localPort
  remotePort := remotePort
  seq := seq
  ack := 0
  connected := false
  closed := false
  reset := false
  out := out
  outCapacity := UInt32.ofNat out.length
  outSize := 0
  headerDone := false
  full := false
  header := List.replicate 1024 0
  headerSize := 0
  headerTruncated := false
  headerTail := List.replicate 4 0
  headerTailCount := 0
  sent := []

/-- Before any protocol was used: all variables are zero. -/
def State.start (deviceCount localIp : UInt32) (recordName : List UInt8) : State where
  deviceCount := deviceCount
  localIp := localIp
  arpWait := ⟨false, 0, 0, List.replicate 6 0, false⟩
  tcpGet := { TcpGet.start 0 0 0 0 0 [] with active := false }
  tcpStream := { TcpStream.start 0 0 0 0 0 [] with active := false }
  dhcpWait := ⟨false, 0, 0, 0, false, 0, 0, 0, 0, 0⟩
  dnsWait := ⟨false, 0, 0, 0, false, false, 0, List.replicate 128 0⟩
  recordName := recordName
  arpReplies := []

/-- What the driver does to the state between two frames. -/
inductive DriverStep (st : State) : State → Prop
  | device (deviceCount : UInt32) : DriverStep st { st with deviceCount := deviceCount }
  | config (localIp : UInt32) : DriverStep st { st with localIp := localIp }
  /-- Whatever else was on the stack. -/
  | stack (recordName : List UInt8) (length : recordName.length = 128) :
    DriverStep st { st with recordName := recordName }
  | arpResolve (device wantedIp : UInt32) :
    DriverStep st { st with arpWait := ⟨true, device, wantedIp, List.replicate 6 0, false⟩ }
  | arpDone : DriverStep st { st with arpWait := { st.arpWait with active := false } }
  | dhcp (device xid : UInt32) (wantedType : UInt8) :
    DriverStep st { st with dhcpWait := ⟨true, device, xid, wantedType, false, 0, 0, 0, 0, 0⟩ }
  | dhcpDone : DriverStep st { st with dhcpWait := { st.dhcpWait with active := false } }
  | dns (device : UInt32) (id localPort : UInt16) : DriverStep st { st with
      dnsWait := ⟨true, device, id, localPort, false, false, 0, List.replicate 128 0⟩ }
  | dnsDone : DriverStep st { st with dnsWait := { st.dnsWait with active := false } }
  | streamConnect (device remoteIp : UInt32) (localPort remotePort : UInt16) (seq : UInt32)
    (rxBuffer : List UInt8) (length : rxBuffer.length < 2 ^ 32) : DriverStep st { st with
      tcpStream := .start device remoteIp localPort remotePort seq rxBuffer }
  | streamSend (size : UInt32) : DriverStep st { st with
      tcpStream := { st.tcpStream with seq := st.tcpStream.seq + size } }
  | streamRecv {bytes : List UInt8} {s : TcpStream} (capacity : UInt32)
    (taken : st.tcpStream.takeReceived capacity = some (bytes, s)) :
    DriverStep st { st with tcpStream := s }
  | streamClose (seq : UInt32) : DriverStep st { st with
      tcpStream := { st.tcpStream with active := false, seq := seq } }
  | httpGet (device remoteIp : UInt32) (localPort remotePort : UInt16) (seq : UInt32)
    (out : List UInt8) (length : out.length < 2 ^ 32) : DriverStep st { st with
      tcpGet := .start device remoteIp localPort remotePort seq out }
  | httpSend (size : UInt32) : DriverStep st { st with
      tcpGet := { st.tcpGet with seq := st.tcpGet.seq + size } }
  /-- The body is decoded in place. -/
  | httpDecode (out : List UInt8) (outSize : UInt32) (length : out.length = st.tcpGet.out.length)
    (size : outSize = 0 ∨ outSize < st.tcpGet.outCapacity) :
    DriverStep st { st with tcpGet := { st.tcpGet with out := out, outSize := outSize } }
  | httpDone : DriverStep st { st with tcpGet := { st.tcpGet with active := false } }

/-- The states the protocols can be in. -/
inductive ProtocolState : State → Prop
  | start (deviceCount localIp : UInt32) (recordName : List UInt8)
    (length : recordName.length = 128) : ProtocolState (.start deviceCount localIp recordName)
  | driver {st st' : State} (state : ProtocolState st) (step : DriverStep st st') :
    ProtocolState st'
  | frame {st st' : State} (state : ProtocolState st) (index : UInt32) (frame : List UInt8)
    (received : receiveFrame st index frame = some st') : ProtocolState st'

lemma TcpStream.start_valid {rxBuffer : List UInt8} (h : rxBuffer.length < 2 ^ 32) :
    (TcpStream.start device remoteIp localPort remotePort seq rxBuffer).Valid :=
  ⟨(UInt32.toNat_ofNat_of_lt' h).symm, UInt32.zero_le⟩

lemma TcpGet.start_valid {out : List UInt8} (h : out.length < 2 ^ 32) :
    (TcpGet.start device remoteIp localPort remotePort seq out).Valid :=
  ⟨(UInt32.toNat_ofNat_of_lt' h).symm, .inl rfl, length_replicate,
    show (0 : UInt32) < 1024 by decide, rfl, UInt32.zero_le⟩

lemma State.Valid.driver {st' : State} (h : st.Valid) (hstep : DriverStep st st') : st'.Valid := by
  obtain ⟨hmac, hget, hstream, hcname, hrecord⟩ := h
  cases hstep with
  | device | config | arpDone | dhcp | dhcpDone | dnsDone =>
    exact ⟨hmac, hget, hstream, hcname, hrecord⟩
  | stack _ length => exact ⟨hmac, hget, hstream, hcname, length⟩
  | arpResolve => exact ⟨rfl, hget, hstream, hcname, hrecord⟩
  | dns => exact ⟨hmac, hget, hstream, length_replicate, hrecord⟩
  | streamConnect _ _ _ _ _ _ length =>
    exact ⟨hmac, hget, TcpStream.start_valid length, hcname, hrecord⟩
  | streamSend | streamClose => exact ⟨hmac, hget, ⟨hstream.buffer, hstream.size⟩, hcname, hrecord⟩
  | streamRecv capacity taken =>
    obtain ⟨s', hs', hhands⟩ := TcpStream.takeReceived_hands hstream capacity
    rw [taken, some.injEq, Prod.mk.injEq] at hs'
    obtain ⟨-, rfl⟩ := hs'
    exact ⟨hmac, hget, hhands.valid, hcname, hrecord⟩
  | httpGet _ _ _ _ _ _ length => exact ⟨hmac, TcpGet.start_valid length, hstream, hcname, hrecord⟩
  | httpSend | httpDone => exact ⟨hmac, hget.of_buffers rfl, hstream, hcname, hrecord⟩
  | httpDecode out outSize length size =>
    exact ⟨hmac, ⟨length.trans hget.out, size, hget.header, hget.headerSize, hget.headerTail,
      hget.headerTailCount⟩, hstream, hcname, hrecord⟩

lemma ProtocolState.valid (h : ProtocolState st) : st.Valid := by
  induction h with
  | start _ _ _ length =>
    have hget : (TcpGet.start 0 0 0 0 0 []).Valid := TcpGet.start_valid (by decide)
    have hstream : (TcpStream.start 0 0 0 0 0 []).Valid := TcpStream.start_valid (by decide)
    exact ⟨rfl, hget.of_buffers rfl, ⟨hstream.buffer, hstream.size⟩, length_replicate, length⟩
  | driver _ step ih => exact ih.driver step
  | frame _ index frame received ih =>
    obtain ⟨st', hst', hvalid⟩ := receiveFrame_valid ih index frame
    rwa [some.inj (received.symm.trans hst')]

/-- Whatever frame arrives, in whatever state the protocols are: everything read lies in the frame,
everything written in its buffer, and the handlers come to an end. -/
theorem receiveFrame_safe (h : ProtocolState st) (index : UInt32) (frame : List UInt8) :
    ∃ st', receiveFrame st index frame = some st' ∧ ProtocolState st' := by
  obtain ⟨st', hst', -⟩ := receiveFrame_valid h.valid index frame
  exact ⟨st', hst', h.frame index frame hst'⟩

/-- A compressed name that points to itself, in the answer to a question that was asked. -/
theorem receiveFrame_safe_loop :
    let st := { State.start 1 0 (List.replicate 128 7) with
      dnsWait := ⟨true, 0, 5, 6, false, false, 0, List.replicate 128 0⟩ }
    ∃ st', receiveFrame st 0 (List.replicate 12 0 ++ [8, 0, 0x45, 0, 0, 44, 0, 0, 0, 0, 64, 17, 0, 0,
      1, 2, 3, 4, 0xFF, 0xFF, 0xFF, 0xFF, 0, 53, 0, 6, 0, 24, 0, 0, 0, 5, 0x80, 0, 0, 0, 0, 1, 0, 0,
      0, 0, 0xC0, 12, 0, 0]) = some st' ∧ ProtocolState st' :=
  receiveFrame_safe (.driver (.start 1 0 _ length_replicate) (.dns 0 5 6)) 0 _

end Net
