import LainOS.LainFS.ReadBack
import LainOS.Shell.Registry

/-!
# The registry file

`shell_registry_save` writes one line `key=value` for each entry; `shell_registry_load` skips blank
lines and comments, cuts the others at the first `=` and trims both sides. The setter accepts keys and
values that do not survive this.
-/

namespace Shell

open LainFS Trim List Option Function UInt32 Registry

variable {c drive : UInt8} {value : CString} {sh : ShellState} {text : List UInt8}

def asmSourceSize : ℕ := 3 * 1024 * 1024

/-! ### Writing -/

/-- `out` holds the text up to `*pos`. -/
def appendTextLimited (outSize : ℕ) : List UInt8 → List UInt8 → Option (List UInt8)
  | out, [] => some out
  | out, c :: text =>
    if out.length + 1 ≥ outSize then none else appendTextLimited outSize (out ++ [c]) text

/-- A pass of the loop of `shell_registry_save`. -/
def appendEntry (r : Registry) (out : List UInt8) (index : ℕ) : Option (List UInt8) :=
  match registryKeyAt r index, registryValueAt r index with
  | some key, some value => do
    let out ← appendTextLimited asmSourceSize out key
    let out ← appendTextLimited asmSourceSize out [0x3D]
    let out ← appendTextLimited asmSourceSize out value
    appendTextLimited asmSourceSize out [0x0A]
  | _, _ => some out

/-- The text in the manifest buffer, or `none` if it does not fit. -/
def registryText (r : Registry) : Option (List UInt8) :=
  (List.range (registryCount r)).foldlM (appendEntry r) []

/-! ### Reading -/

def isSpace (c : UInt8) : Bool := c = 0x20 ∨ c = 0x09

def isSpaceOrBreak (c : UInt8) : Bool := c = 0x20 ∨ c = 0x09 ∨ c = 0x0D ∨ c = 0x0A

def trimSpaces (s : List UInt8) : List UInt8 := trim isSpace isSpaceOrBreak s

/-- What is done with one line. -/
def loadLine (r : Registry) (line : List UInt8) : Registry :=
  let key := trimSpaces line
  if key = [] ∨ key.head? = some 0x23 ∨ key.head? = some 0x3B then r
  else
    match key.dropWhile (· ≠ 0x3D) with
    | [] => r
    | _ :: value =>
      let key := trimSpaces (key.takeWhile (· ≠ 0x3D))
      if key ≠ [] then (registrySet r key (trimSpaces value)).2 else r

/-- The loop over the lines. Each line ends at its newline or at the end of the file, and as a string
at a NUL before. -/
def loadText (r : Registry) (text : List UInt8) : Registry :=
  if _h : text = [] then r
  else
    loadText (loadLine r (cString (text.takeWhile (· ≠ 0x0A)))) ((text.dropWhile (· ≠ 0x0A)).drop 1)
termination_by text.length
decreasing_by
  have hpos := length_pos_of_ne_nil _h
  have hle := (dropWhile_sublist (· ≠ 0x0A) (l := text)).length_le
  rw [length_drop]
  cases hd : text.dropWhile (· ≠ 0x0A) with
  | nil => simpa using hpos
  | cons c rest =>
    rw [hd] at hle
    omega

/-! ### The shell -/

/-- The part of the shell that the two functions use. -/
structure ShellState where
  fs : State
  registry : Registry
  /-- `'A' + active_drive()` -/
  activeDrive : Option UInt8
  workBuffersReady : Bool

/-- `registry.cfg` -/
def shellRegistryFile : CString :=
  ⟨[0x72, 0x65, 0x67, 0x69, 0x73, 0x74, 0x72, 0x79, 0x2E, 0x63, 0x66, 0x67], by simp⟩

def shellRegistrySave (sh : ShellState) : ShellState :=
  match sh.activeDrive with
  | none => sh
  | some drive =>
    if sh.workBuffersReady = false then sh
    else
      match registryText sh.registry with
      | none => sh
      | some text =>
        match lainfsSaveFileInDir sh.fs drive rootDir shellRegistryFile (fun k => text.getD k 0)
            (UInt32.ofNat text.length) with
        | (0, fs) => { sh with fs := (lainfsFlush fs drive).2 }
        | (_, fs) => { sh with fs }

def shellRegistryLoad (sh : ShellState) : ShellState :=
  match sh.activeDrive with
  | none => sh
  | some drive =>
    if sh.workBuffersReady = false then sh
    else
      match lainfsLoadFileInDir sh.fs drive rootDir shellRegistryFile (UInt32.ofNat asmSourceSize) with
      | (result, fs) =>
        if result.status ≠ 0 ∨ result.outSize.toNat ≥ asmSourceSize then { sh with fs }
        else { sh with fs, registry := loadText sh.registry result.bytes }

/-! ### The text of the file -/

def entryLine (e : RegistryEntry) : List UInt8 := e.key ++ 0x3D :: e.value ++ [0x0A]

variable {l : List RegistryEntry} {e : RegistryEntry} {r : Registry} {line rest : List UInt8}

lemma appendLimited_eq {outSize : ℕ} (out text : List UInt8)
    (h : out.length + text.length < outSize) :
    appendTextLimited outSize out text = some (out ++ text) := by
  induction text generalizing out with
  | nil => rw [appendTextLimited, append_nil]
  | cons c text ih =>
    rw [length_cons] at h
    have hnext : (out ++ [c]).length + text.length < outSize := by
      rw [length_append, length_singleton]
      omega
    rw [appendTextLimited, if_neg (by omega), ih _ hnext, append_assoc]
    rfl

lemma entryLine_length (h : KeyValueSound e) : (entryLine e).length ≤ 144 := by
  have hk := h.key_lt
  have hv := h.value_lt
  simp only [registryKeySize, registryValueSize] at hk hv
  simp only [entryLine, length_append, length_cons, length_nil]
  omega

lemma appendEntry_eq {out : List UInt8} {i : ℕ} (h : RegistrySound l) (hi : l[i]? = some e)
    (hout : out.length ≤ 144 * i) : appendEntry (ofList l) out i = some (out ++ entryLine e) := by
  have he := h.entry e (mem_of_getElem? hi)
  have hlt : i < l.length := (List.getElem?_eq_some_iff.mp hi).1
  have hsize : 144 * registryMaxEntries < asmSourceSize := by decide
  have hfits : out.length + (entryLine e).length < asmSourceSize := by
    have := h.length_le
    have := entryLine_length he
    omega
  simp only [entryLine, length_append, length_cons, length_nil] at hfits
  simp only [appendEntry, registryKeyAt, registryValueAt, entries_ofList h.length_le, hi,
    map_some, bind_eq_bind]
  rw [appendLimited_eq _ _ (by omega), bind_some,
    appendLimited_eq _ _ (by simp only [length_append, length_singleton]; omega),
    bind_some,
    appendLimited_eq _ _ (by simp only [length_append, length_singleton]; omega),
    bind_some,
    appendLimited_eq _ _ (by simp only [length_append, length_singleton]; omega)]
  simp [entryLine]

lemma flatMap_entryLine_length (h : ∀ e ∈ l, KeyValueSound e) :
    (l.flatMap entryLine).length ≤ 144 * l.length := by
  induction l with
  | nil => simp
  | cons e l ih =>
    have hline := entryLine_length (h e mem_cons_self)
    have hrest := ih fun x hx => h x (mem_cons_of_mem e hx)
    rw [flatMap_cons, length_append, length_cons]
    omega

/-- The file holds one line for each entry. -/
lemma registryText_ofList (h : RegistrySound l) :
    registryText (ofList l) = some (l.flatMap entryLine) := by
  have hloop : ∀ n ≤ l.length, (List.range n).foldlM (appendEntry (ofList l)) [] =
      some ((l.take n).flatMap entryLine) := by
    intro n hn
    induction n with
    | zero => rfl
    | succ n ih =>
      have hlt : n < l.length := hn
      have hi : l[n]? = some l[n] := getElem?_eq_getElem hlt
      have hlen := flatMap_entryLine_length fun e he => h.entry e (mem_of_mem_take (i := n) he)
      rw [range_succ, foldlM_append, ih (Nat.le_of_succ_le hn)]
      rw [length_take, min_eq_left hlt.le] at hlen
      simp only [bind_eq_bind, bind_some, foldlM_cons, foldlM_nil]
      rw [appendEntry_eq h hi hlen, bind_some, take_add_one, hi, flatMap_append]
      simp
  rw [registryText, registryCount, entries_ofList h.length_le, hloop _ le_rfl, take_length]

/-! ### Reading the lines -/

/-- A key that is read back as it was written. -/
structure CleanKey (key : List UInt8) : Prop where
  trimmed : trimSpaces key = key
  noEquals : 0x3D ∉ key
  noBreak : 0x0A ∉ key
  noComment : key.head? ≠ some 0x23 ∧ key.head? ≠ some 0x3B

structure CleanValue (value : List UInt8) : Prop where
  trimmed : trimSpaces value = value
  noBreak : 0x0A ∉ value

structure Clean (e : RegistryEntry) : Prop where
  key : CleanKey e.key
  value : CleanValue e.value

lemma loadText_nil : loadText r [] = r := by
  rw [loadText]
  rfl

lemma loadText_line (hline : 0x0A ∉ line) :
    loadText r (line ++ 0x0A :: rest) = loadText (loadLine r (cString line)) rest := by
  have hne : ∀ c ∈ line, decide (c ≠ 0x0A) = true := fun c hc => by
    simpa using fun h : c = 0x0A => hline (h ▸ hc)
  rw [loadText, dif_neg (by simp), takeWhile_append_of_pos hne, dropWhile_append_of_pos hne]
  simp

lemma CleanKey.head (h : CleanKey e.key) {c : UInt8} (hc : c ∈ e.key.head?) : isSpace c = false := by
  have htrim : c ∈ (trimSpaces e.key).head? := by rwa [h.trimmed]
  exact head?_trim htrim

lemma CleanValue.last (h : CleanValue e.value) (hc : c ∈ e.value.getLast?) :
    isSpaceOrBreak c = false := by
  have htrim : c ∈ (trimSpaces e.value).getLast? := by rwa [h.trimmed]
  exact getLast?_trim htrim

/-- The line of a clean entry is trimmed already. -/
lemma trimSpaces_line (hclean : Clean e) (hne : e.key ≠ []) :
    trimSpaces (e.key ++ 0x3D :: e.value) = e.key ++ 0x3D :: e.value := by
  refine trim_eq_self (fun c hc => ?_) fun c hc => ?_
  · rw [head?_append_of_ne_nil _ hne] at hc
    exact hclean.key.head hc
  rw [getLast?_append, getLast?_cons] at hc
  cases hlast : e.value.getLast? with
  | none =>
    rw [hlast] at hc
    obtain rfl := some.inj hc
    decide
  | some b =>
    rw [hlast] at hc
    obtain rfl := some.inj hc
    exact hclean.value.last hlast

/-- A clean entry is set as it was. -/
lemma loadLine_clean (hclean : Clean e) (hne : e.key ≠ []) :
    loadLine r (e.key ++ 0x3D :: e.value) = (registrySet r e.key e.value).2 := by
  have hkey : ∀ c ∈ e.key, decide (c ≠ 0x3D) = true := fun c hc => by
    simpa using fun h : c = 0x3D => hclean.key.noEquals (h ▸ hc)
  have hskip : ¬ (e.key ++ 0x3D :: e.value = [] ∨
      (e.key ++ 0x3D :: e.value).head? = some 0x23 ∨
      (e.key ++ 0x3D :: e.value).head? = some 0x3B) := by
    rw [head?_append_of_ne_nil _ hne]
    simpa [hne] using hclean.key.noComment
  have hdrop : (e.key ++ 0x3D :: e.value).dropWhile (· ≠ 0x3D) = 0x3D :: e.value := by
    rw [dropWhile_append_of_pos hkey]
    simp
  have htake : (e.key ++ 0x3D :: e.value).takeWhile (· ≠ 0x3D) = e.key := by
    rw [takeWhile_append_of_pos hkey]
    simp
  simp only [loadLine, trimSpaces_line hclean hne]
  rw [if_neg hskip, hdrop]
  dsimp only
  rw [htake, hclean.key.trimmed, if_pos hne, hclean.value.trimmed]

/-- Loading the lines of clean entries adds them to the table. -/
lemma loadText_clean {done : List RegistryEntry} (h : RegistrySound (done ++ l))
    (hclean : ∀ e ∈ l, Clean e) :
    loadText (ofList done) (l.flatMap entryLine) = ofList (done ++ l) := by
  induction l generalizing done with
  | nil => rw [flatMap_nil, loadText_nil, append_nil]
  | cons e l ih =>
    have hmem : e ∈ done ++ e :: l := mem_append_right _ mem_cons_self
    have he := h.entry e hmem
    have hc := hclean e mem_cons_self
    have hline : 0x0A ∉ e.key ++ 0x3D :: e.value := by simp [hc.key.noBreak, hc.value.noBreak]
    have hzero : cString (e.key ++ 0x3D :: e.value) = e.key ++ 0x3D :: e.value := by
      refine takeWhile_eq_self_iff.mpr fun c hcmem => ?_
      have hz : (0 : UInt8) ∉ e.key ++ 0x3D :: e.value := by simp [he.key_nonzero, he.value_nonzero]
      simpa using fun h0 : c = 0 => hz (h0 ▸ hcmem)
    have hnew : e.key ∉ done.map (·.key) := by
      have hkeys := h.keys
      rw [map_append, map_cons] at hkeys
      exact fun hin => (nodup_append.mp hkeys).2.2 _ hin _ mem_cons_self rfl
    have hroom : done.length < registryMaxEntries := by
      have := h.length_le
      rw [length_append, length_cons] at this
      omega
    have hsplit : (e :: l).flatMap entryLine =
        (e.key ++ 0x3D :: e.value) ++ 0x0A :: l.flatMap entryLine := by
      simp [entryLine]
    rw [hsplit, loadText_line hline, hzero, loadLine_clean hc he.key_ne,
      registrySet_new he.key_ne he.key_lt he.value_lt hroom hnew]
    have hassoc : done ++ e :: l = (done ++ [e]) ++ l := by simp
    rw [hassoc] at h ⊢
    exact ih h fun x hx => hclean x (mem_cons_of_mem e hx)

/-! ### What is read is clean -/

/-- The pairs in a registry. -/
def Registry.pairs (r : Registry) : Set RegistryEntry := {e | ∃ i, r i = some e}

lemma mem_pairs_ofList (h : l.length ≤ registryMaxEntries) : e ∈ (ofList l).pairs ↔ e ∈ l := by
  constructor
  · rintro ⟨i, hi⟩
    exact ofList_eq_some hi
  · intro he
    obtain ⟨i, hi, rfl⟩ := mem_iff_getElem.mp he
    exact ⟨⟨i, hi.trans_le h⟩, getElem?_eq_getElem hi⟩

lemma update_pairs {i : Fin registryMaxEntries} {o : Option RegistryEntry}
    (hclean : ∀ e ∈ r.pairs, Clean e) (ho : ∀ e ∈ o, Clean e) :
    ∀ e ∈ Registry.pairs (update r i o), Clean e := by
  rintro e ⟨j, hj⟩
  by_cases hji : j = i
  · subst hji
    rw [update_self] at hj
    exact ho e hj
  · rw [update_of_ne hji] at hj
    exact hclean e ⟨j, hj⟩

lemma registrySet_pairs {key value : List UInt8} (hclean : ∀ e ∈ r.pairs, Clean e)
    (hkey : CleanKey key) (hvalue : CleanValue value) :
    ∀ e ∈ (registrySet r key value).2.pairs, Clean e := by
  rw [registrySet]
  split_ifs with hempty hlong
  · exact hclean
  · exact hclean
  obtain ⟨hk, hv⟩ : key.length < registryKeySize ∧ value.length < registryValueSize := by omega
  rw [copy_of_lt hk, copy_of_lt hv]
  cases registryFind r key with
  | some i =>
    refine update_pairs hclean fun e he => ?_
    obtain ⟨x, hx, rfl⟩ := map_eq_some_iff.mp he
    exact ⟨(hclean x ⟨i, hx⟩).key, hvalue⟩
  | none =>
    cases registryFindUnused r with
    | none => exact hclean
    | some i =>
      refine update_pairs hclean fun e he => ?_
      obtain rfl := some.inj he
      exact ⟨hkey, hvalue⟩

/-- The part of a trimmed line before the `=` starts as the line does. -/
lemma head?_key (h : (trimSpaces ((trimSpaces line).takeWhile (· ≠ 0x3D))).head? = some c) :
    (trimSpaces line).head? = some c := by
  rcases hl : trimSpaces line with _ | ⟨b, s⟩
  · rw [hl] at h
    cases h
  have hhead : b ∈ (trimSpaces line).head? := by
    rw [hl]
    rfl
  have hb : isSpace b = false := head?_trim hhead
  rw [hl, takeWhile_cons] at h
  split_ifs at h
  · rw [head?_of_head?_trim rfl hb h]
    rfl
  · cases h

/-- The key and the value of a line are clean, whatever the line is. -/
lemma loadLine_pairs (hclean : ∀ e ∈ r.pairs, Clean e) (hline : 0x0A ∉ line) :
    ∀ e ∈ (loadLine r line).pairs, Clean e := by
  have hbreak : ∀ s : List UInt8, s.Sublist line → 0x0A ∉ s := fun s hs hmem => hline (hs.mem hmem)
  have hsub : (trimSpaces line).Sublist line := trim_sublist
  unfold loadLine
  by_cases hskip : trimSpaces line = [] ∨ (trimSpaces line).head? = some 0x23 ∨
      (trimSpaces line).head? = some 0x3B
  · rw [if_pos hskip]
    exact hclean
  rw [if_neg hskip]
  cases hdrop : (trimSpaces line).dropWhile (· ≠ 0x3D) with
  | nil => exact hclean
  | cons c value =>
    have hvalue : value.Sublist (trimSpaces line) :=
      (sublist_cons_self c value).trans (hdrop ▸ dropWhile_sublist _)
    dsimp only
    split_ifs with hne
    · refine registrySet_pairs hclean ⟨trim_trim, ?_, ?_, ?_, ?_⟩ ⟨trim_trim, ?_⟩
      · intro hmem
        have := mem_takeWhile_imp (mem_of_mem_trim hmem)
        simp at this
      · exact hbreak _ (trim_sublist.trans ((takeWhile_sublist _).trans hsub))
      · exact fun h => hskip (.inr (.inl (head?_key h)))
      · exact fun h => hskip (.inr (.inr (head?_key h)))
      · exact hbreak _ (trim_sublist.trans (hvalue.trans hsub))
    · exact hclean

lemma loadText_pairs (hclean : ∀ e ∈ r.pairs, Clean e) (text : List UInt8) :
    ∀ e ∈ (loadText r text).pairs, Clean e := by
  fun_induction loadText r text with
  | case1 r => exact hclean
  | case2 r text hne ih =>
    refine ih (loadLine_pairs hclean fun hmem => ?_)
    have hin := mem_takeWhile_imp ((takeWhile_sublist _).mem hmem)
    simp at hin

/-! ### Saving and loading -/

/-- Loading the text of a registry into an empty one gives the same pairs exactly if all are clean. -/
lemma loadText_pairs_iff (h : RegistrySound l) :
    (loadText Registry.empty (l.flatMap entryLine)).pairs = (ofList l).pairs ↔
      ∀ e ∈ (ofList l).pairs, Clean e := by
  constructor
  · intro heq e he
    rw [← heq] at he
    refine loadText_pairs ?_ _ e he
    rintro x ⟨i, hi⟩
    cases hi
  · intro hclean
    have hload : loadText (ofList []) (l.flatMap entryLine) = ofList l :=
      loadText_clean h fun e he => hclean e ((mem_pairs_ofList h.length_le).mpr he)
    rw [← ofList_nil, hload]

/-- The file write has succeeded: the registry file holds the text. -/
def FileWritten (fs : State) (drive : UInt8) (text : List UInt8) : Prop :=
  (lainfsLoadFileInDir fs drive rootDir shellRegistryFile (UInt32.ofNat asmSourceSize)).1 =
    ⟨0, UInt32.ofNat text.length, text⟩

/-- What the shell loads from a file that was written. -/
lemma registryLoad_of_written (hdrive : sh.activeDrive = some drive)
    (hready : sh.workBuffersReady = true) (hwritten : FileWritten sh.fs drive text)
    (hsize : text.length < asmSourceSize) :
    (shellRegistryLoad sh).registry = loadText sh.registry text := by
  have hlt : text.length < 2 ^ 32 := hsize.trans (by decide)
  rw [shellRegistryLoad, hdrive]
  dsimp only
  rw [hready, if_neg (by decide), hwritten]
  have hok : ¬ ((0 : ℤ) ≠ 0 ∨ (UInt32.ofNat text.length).toNat ≥ asmSourceSize) := by
    rw [toNat_ofNat', Nat.mod_eq_of_lt hlt]
    omega
  rw [if_neg hok]

lemma registrySave_frame (sh : ShellState) : (shellRegistrySave sh).activeDrive = sh.activeDrive ∧
      (shellRegistrySave sh).workBuffersReady = sh.workBuffersReady ∧
      (shellRegistrySave sh).registry = sh.registry := by
  unfold shellRegistrySave
  split
  · exact ⟨rfl, rfl, rfl⟩
  split_ifs
  · exact ⟨rfl, rfl, rfl⟩
  · split
    · exact ⟨rfl, rfl, rfl⟩
    · split <;> exact ⟨rfl, rfl, rfl⟩

/-- Saving a registry and loading it into an empty one. -/
lemma registry_reload (h : RegistrySound l) (hreg : sh.registry = ofList l)
    (hdrive : sh.activeDrive = some drive) (hready : sh.workBuffersReady = true)
    (hwritten : ∀ text, registryText sh.registry = some text →
      FileWritten (shellRegistrySave sh).fs drive text) :
    (shellRegistryLoad { shellRegistrySave sh with registry := Registry.empty }).registry =
      loadText Registry.empty (l.flatMap entryLine) := by
  obtain ⟨hdrive', hready', -⟩ := registrySave_frame sh
  have hfile := hwritten _ (by rw [hreg]; exact registryText_ofList h)
  have hsize : (l.flatMap entryLine).length < asmSourceSize := by
    have := flatMap_entryLine_length h.entry
    have := h.length_le
    have : 144 * registryMaxEntries < asmSourceSize := by decide
    omega
  generalize shellRegistrySave sh = saved at *
  exact registryLoad_of_written (hdrive'.trans hdrive) (hready'.trans hready) hfile hsize

/-- On a healthy file system a save that reports success has written the file. -/
lemma fileWritten_of_save {p : UInt32} {fs : State} (hh : Healthy sh.fs)
    (hsmall : ∀ q, Small sh.fs.storage q) (hm : mountForDrive sh.fs drive = some p)
    (hvalid : ∀ part super, Usable sh.fs.storage p part super →
      TableValid part super.1 (tableView sh.fs p super)) (hdrive : sh.activeDrive = some drive)
    (hready : sh.workBuffersReady = true) (htext : registryText sh.registry = some text)
    (hsize : text.length < asmSourceSize)
    (hsave : lainfsSaveFileInDir sh.fs drive rootDir shellRegistryFile (fun k => text.getD k 0)
      (UInt32.ofNat text.length) = (0, fs)) :
    FileWritten (shellRegistrySave sh).fs drive text := by
  have hlt : text.length < 2 ^ 32 := hsize.trans (by decide)
  have hlen : (UInt32.ofNat text.length).toNat = text.length := by
    rw [toNat_ofNat', Nat.mod_eq_of_lt hlt]
  have hfs : (shellRegistrySave sh).fs = FileCall.runAll fs [.flush drive] := by
    rw [shellRegistrySave, hdrive]
    dsimp only
    rw [hready, if_neg (by decide), htext]
    dsimp only
    rw [hsave]
    rfl
  obtain ⟨hname, hh', hm', part, super, hstored⟩ :=
    hh.saved_runAll hsmall hm hvalid hsave
      (show FileCall.Always _ fs [.flush drive] from ⟨trivial, trivial⟩) ⟨trivial, trivial⟩
  have hbuffer : max (UInt32.ofNat text.length).toNat 1 ≤ (UInt32.ofNat asmSourceSize).toNat := by
    rw [hlen, toNat_ofNat', Nat.mod_eq_of_lt (by decide)]
    exact max_le hsize.le (by decide)
  rw [FileWritten, hfs, hstored.load hh' hm' hname hbuffer, hlen]
  congr 1
  refine ext_getElem (by simp) fun i hi hi' => ?_
  simp [hi']

/-! ### A registry with two entries -/

/-- The shell on a fresh volume with the settings `a` and `b`. -/
def twoSettings (value : CString) : ShellState :=
  { fs := freshVolume 300, registry := registryOf [(nameA, value), (nameB, nameA)], activeDrive := some 0x43,
    workBuffersReady := true }

/-- A `b` after a blank. -/
def spacedB : CString := ⟨[0x20, 0x62], by simp⟩

section

variable (hlen : value.bytes.length < registryValueSize)
include hlen

lemma twoSettings_registry : (twoSettings value).registry =
    ofList [⟨nameA.bytes, value.bytes⟩, ⟨nameB.bytes, nameA.bytes⟩] := by
  change (registrySet (registrySet Registry.empty nameA.bytes value.bytes).2 nameB.bytes
    nameA.bytes).2 = _
  rw [← ofList_nil, registrySet_new (by decide) (by decide) hlen (by decide) (by simp),
    registrySet_new (by decide) (by decide) (by decide) (by simp [registryMaxEntries])
      (by simp [nameA, nameB])]
  rfl

lemma twoSettings_sound :
    RegistrySound [⟨nameA.bytes, value.bytes⟩, ⟨nameB.bytes, nameA.bytes⟩] := by
  have hfirst : RegistrySound [⟨nameA.bytes, value.bytes⟩] :=
    registrySound_nil.append (by decide) (by simp)
      ⟨show nameA.bytes ≠ [] by decide, show nameA.bytes.length < registryKeySize by decide,
        show 0 ∉ nameA.bytes by decide, hlen, fun h => value.nonzero 0 h rfl⟩
  exact hfirst.append (by simp [registryMaxEntries]) (by simp [nameA, nameB])
    ⟨show nameB.bytes ≠ [] by decide, show nameB.bytes.length < registryKeySize by decide,
      show 0 ∉ nameB.bytes by decide, show nameA.bytes.length < registryValueSize by decide,
      show 0 ∉ nameA.bytes by decide⟩

lemma twoSettings_written (hblocks : requiredBlocks (UInt32.ofNat (value.bytes.length + 7)) = 1)
    (text : List UInt8) (htext : registryText (twoSettings value).registry = some text) :
    FileWritten (shellRegistrySave (twoSettings value)).fs 0x43 text := by
  have hl : ¬ layoutIsBad formatSuper 300 := by decide
  have hlines : text = entryLine ⟨nameA.bytes, value.bytes⟩ ++
      entryLine ⟨nameB.bytes, nameA.bytes⟩ := by
    rw [twoSettings_registry hlen, registryText_ofList (twoSettings_sound hlen)] at htext
    simpa using htext.symm
  have hlength : text.length = value.bytes.length + 7 := by
    rw [hlines]
    simp [entryLine, nameA, nameB]
  simp only [registryValueSize] at hlen
  have hsize : text.length < asmSourceSize := by
    rw [hlength, asmSourceSize]
    omega
  have harg : ¬ (validName shellRegistryFile.bytes = false ∨
      UInt32.ofNat text.length > fileCapacity) := by
    have hcap : 102 < fileCapacity.toNat := by decide
    rw [gt_iff_lt, lt_iff_toNat_lt, toNat_ofNat', Nat.mod_eq_of_lt (by omega)]
    rintro (h | h)
    · exact absurd h (by decide)
    · omega
  obtain ⟨fs, hsave, -⟩ := @fresh_saveFile 300 hl shellRegistryFile (UInt32.ofNat text.length)
    (by decide) harg (by rw [hlength]; exact hblocks) fun k => text.getD k 0
  exact fileWritten_of_save (fresh_healthy (by decide)) (fresh_small (by decide)) rfl
    (fresh_valid hl) rfl rfl htext hsize hsave

end

/-! ### Main result -/

/-- A registry survives a save and a load exactly if all its keys and values are clean. -/
theorem registry_survives_iff {calls : List (CString × CString)} {sh : ShellState} {drive : UInt8}
    (hreg : sh.registry = registryOf calls) (hdrive : sh.activeDrive = some drive)
    (hready : sh.workBuffersReady = true)
    (hwritten : ∀ text, registryText sh.registry = some text →
      FileWritten (shellRegistrySave sh).fs drive text) :
    (shellRegistryLoad { shellRegistrySave sh with registry := Registry.empty }).registry.pairs =
      sh.registry.pairs ↔ ∀ e ∈ sh.registry.pairs, Clean e := by
  obtain ⟨l, hl, hof⟩ := registryOf_sound calls
  rw [hof] at hreg
  rw [registry_reload hl hreg hdrive hready hwritten, hreg]
  exact loadText_pairs_iff hl

theorem registry_survives_iff_twoSettings :
    (shellRegistryLoad
        { shellRegistrySave (twoSettings nameB) with registry := Registry.empty }).registry.pairs =
      (twoSettings nameB).registry.pairs := by
  refine (registry_survives_iff rfl rfl rfl (twoSettings_written (by decide) (by decide))).mpr ?_
  intro e he
  rw [twoSettings_registry (by decide), mem_pairs_ofList (by decide), mem_pair] at he
  rcases he with rfl | rfl <;>
    exact ⟨⟨by decide, by decide, by decide, by decide⟩, ⟨by decide, by decide⟩⟩

/-- The setter takes the value ` b`; it comes back as `b`. -/
theorem leading_space_lost :
    (shellRegistryLoad
        { shellRegistrySave (twoSettings spacedB) with registry := Registry.empty }).registry.pairs ≠
      (twoSettings spacedB).registry.pairs := by
  have hsound := twoSettings_sound (show spacedB.bytes.length < registryValueSize by decide)
  rw [registry_reload hsound (twoSettings_registry (by decide)) rfl rfl
    (twoSettings_written (by decide) (by decide)), twoSettings_registry (by decide), ne_eq,
    loadText_pairs_iff hsound]
  intro hclean
  have htrimmed := (hclean _ ((mem_pairs_ofList (by decide)).mpr mem_cons_self)).value.trimmed
  exact absurd htrimmed (by decide)

end Shell
