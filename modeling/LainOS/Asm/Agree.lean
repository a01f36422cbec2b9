import LainOS.Asm.Assemble

/-!
# The passes agree on every instruction

The emitting pass puts out as many bytes as it moves the offset, and notes relocations inside of them.
Which form an instruction takes does not depend on the labels, so that the measuring pass moves the
offset alike.
-/

namespace Asm

open TwoPass ZObject List Option

variable {emit : Bool} {bs' : List UInt8} {name : Option Text} {u' : Unit} {ctx₀ ctx : Context}

/-- The relocation covers bytes between the two offsets, and its name is that of an external symbol. -/
structure Noted (ctx : Context) (start stop : ℕ) (r : Relocation) : Prop where
  start_le : start ≤ r.offset
  le_stop : r.offset + r.type.size ≤ stop
  name_length : r.name.length < labelNameSize
  name : r.name = [] ∨ (ctx.externalSymbolValue r.name).isSome

lemma Noted.widen {start stop start' stop' : ℕ} {r : Relocation} (h : Noted ctx start stop r)
    (hstart : start' ≤ start) (hstop : stop ≤ stop') : Noted ctx start' stop' r :=
  { h with start_le := hstart.trans h.start_le, le_stop := h.le_stop.trans hstop }

/-- What the emitting pass does to its output. -/
structure Grew (ctx : Context) (t t' : Out Relocation) : Prop where
  bytes : ∃ new, t'.bytes = t.bytes ++ new ∧ t'.offset.toNat = t.offset.toNat + new.length
  records : ∃ new, t'.records = t.records ++ new ∧
    ∀ r ∈ new, Noted ctx t.offset.toNat t'.offset.toNat r
  room : ∀ capacity, ctx.relocationCapacity = some capacity → t.records.length ≤ capacity.toNat →
    t'.records.length ≤ capacity.toNat
  within : t.offset.toNat ≤ ctx.outCapacity.toNat → t'.offset.toNat ≤ ctx.outCapacity.toNat

variable {t t' s s' : Out Relocation}

/-- Bytes without relocations. -/
lemma Grew.of_bytes {new : List UInt8} (hbytes : t'.bytes = t.bytes ++ new)
    (hoffset : t'.offset.toNat = t.offset.toNat + new.length) (hrecords : t'.records = t.records)
    (hwithin : t.offset.toNat ≤ ctx.outCapacity.toNat → t'.offset.toNat ≤ ctx.outCapacity.toNat) :
    Grew ctx t t' :=
  ⟨⟨new, hbytes, hoffset⟩, ⟨[], by simp [hrecords], by simp⟩, fun _ _ h => by rwa [hrecords], hwithin⟩

lemma Grew.offset_le (h : Grew ctx t t') : t.offset.toNat ≤ t'.offset.toNat := by
  obtain ⟨new, -, hnew⟩ := h.bytes
  omega

instance : Std.Refl (Grew ctx) where
  refl _ := .of_bytes (append_nil _).symm rfl rfl id

instance : IsTrans (Out Relocation) (Grew ctx) where
  trans t t₁ t₂ h h' := by
    have hle := h.offset_le
    have hle' := h'.offset_le
    obtain ⟨⟨new, hbytes, hoffset⟩, ⟨rs, hrecords, hrs⟩, hroom, hwithin⟩ := h
    obtain ⟨⟨new', hbytes', hoffset'⟩, ⟨rs', hrecords', hrs'⟩, hroom', hwithin'⟩ := h'
    refine ⟨⟨new ++ new', by rw [hbytes', hbytes, append_assoc], ?_⟩,
      ⟨rs ++ rs', by rw [hrecords', hrecords, append_assoc], fun r hr => ?_⟩,
      fun capacity hcapacity h => hroom' capacity hcapacity (hroom capacity hcapacity h),
      hwithin' ∘ hwithin⟩
    · rw [hoffset', hoffset, length_append, Nat.add_assoc]
    · rcases mem_append.mp hr with hr | hr
      · exact (hrs r hr).widen le_rfl hle'
      · exact (hrs' r hr).widen hle le_rfl

/-- Both passes over a piece of code, where the measuring one may have a context of its own. -/
abbrev Alike (ctx₀ ctx : Context) {α : Type} (code : Context → Bool → Emit Relocation α) : Prop :=
  Abreast (Grew ctx) (code ctx₀ false) (code ctx true)

/-! ### Bytes -/

variable {u : Unit}

lemma emitByte_some {b : UInt8} (h : emitByte ctx emit b s = some (u, s')) :
    s'.offset.toNat = s.offset.toNat + 1 ∧
      s'.bytes = (if emit then s.bytes ++ [b] else s.bytes) ∧ s'.records = s.records ∧
      s'.offset.toNat ≤ ctx.outCapacity.toNat := by
  rw [emitByte] at h
  split at h
  next => cases h
  next hroom =>
    obtain ⟨-, rfl⟩ := Prod.mk.inj (some.inj h)
    have hlt : s.offset.toNat < ctx.outCapacity.toNat := UInt32.not_le.mp hroom
    have := ctx.outCapacity.toNat_lt
    have hnext : (s.offset + 1).toNat = s.offset.toNat + 1 := by
      exact Nat.mod_eq_of_lt (show s.offset.toNat + 1 < 2 ^ 32 by omega)
    exact ⟨hnext, rfl, rfl, hnext.trans_le hlt⟩

variable {bs : List UInt8}

lemma emitBytes_some (h : emitBytes ctx emit bs s = some (u, s')) :
    s'.offset.toNat = s.offset.toNat + bs.length ∧
      s'.bytes = (if emit then s.bytes ++ bs else s.bytes) ∧ s'.records = s.records ∧
      (s.offset.toNat ≤ ctx.outCapacity.toNat → s'.offset.toNat ≤ ctx.outCapacity.toNat) := by
  induction bs generalizing s with
  | nil =>
    obtain ⟨-, rfl⟩ := pure_eq_some.mp h
    simp
  | cons b bs ih =>
    obtain ⟨u₁, s₁, h₁, h₂⟩ := bind_eq_some.mp h
    obtain ⟨hoffset₁, hbytes₁, hrecords₁, hwithin₁⟩ := emitByte_some h₁
    obtain ⟨hoffset, hbytes, hrecords, hwithin⟩ := ih h₂
    refine ⟨by rw [hoffset, hoffset₁, length_cons]; omega, ?_, hrecords.trans hrecords₁,
      fun _ => hwithin hwithin₁⟩
    cases emit <;> simp_all

/-- Offsets that are counted do not wrap. -/
lemma offset_eq_add {o o' : UInt32} {n : ℕ} (h : o'.toNat = o.toNat + n) : o' = o + n.toUInt32 := by
  apply UInt32.toNat_inj.mp
  have hlt := o'.toNat_lt
  have hn : n.toUInt32.toNat = n % 2 ^ 32 := UInt32.toNat_ofNat'
  rw [UInt32.toNat_add, hn]
  omega

/-- The passes may put out different bytes, but equally many. -/
lemma agree_bytes (h : bs.length = bs'.length) :
    Abreast (Grew ctx) (emitBytes ctx₀ false bs) (emitBytes ctx true bs') := by
  intro s t _ s' _ t' hm he
  obtain ⟨hoffset, -⟩ := emitBytes_some hm
  obtain ⟨hoffset', hbytes', hrecords', hwithin'⟩ := emitBytes_some he
  refine ⟨⟨_, offset_eq_add hoffset, ?_⟩, .of_bytes hbytes' hoffset' hrecords' hwithin'⟩
  rw [h]
  exact offset_eq_add hoffset'

lemma agree_byte (b b' : UInt8) :
    Abreast (Grew ctx) (emitByte ctx₀ false b) (emitByte ctx true b') := by
  intro s t _ s' _ t' hm he
  obtain ⟨hoffset, -⟩ := emitByte_some hm
  obtain ⟨hoffset', hbytes', hrecords', hwithin'⟩ := emitByte_some he
  exact ⟨⟨_, offset_eq_add hoffset, offset_eq_add hoffset'⟩,
    .of_bytes hbytes' hoffset' hrecords' fun _ => hwithin'⟩

lemma agree_emitU64 (v v' : UInt64) :
    Abreast (Grew ctx) (emitU64 ctx₀ false v) (emitU64 ctx true v') := agree_bytes (by simp)

lemma agree_emitU32 (v v' : UInt32) :
    Abreast (Grew ctx) (emitU32 ctx₀ false v) (emitU32 ctx true v') := agree_bytes (by simp)

lemma agree_emitU16 (v v' : UInt16) :
    Abreast (Grew ctx) (emitU16 ctx₀ false v) (emitU16 ctx true v') := agree_bytes (by simp)

lemma alike_rex (w : Bool) (r b : ℕ) : Alike ctx₀ ctx (emitRex · · w r b) :=
  (agree_byte _ _).emitWhen _

lemma alike_modrmReg (reg rm : ℕ) : Alike ctx₀ ctx (emitModrmReg · · reg rm) := agree_byte _ _

lemma alike_modrmDisp (reg : ℕ) (base : Reg) (displacement : Int32) :
    Alike ctx₀ ctx (emitModrmBaseDisp32 · · reg base displacement) := by
  refine (agree_byte _ _).bind fun _ _ => ?_
  exact ((agree_byte _ _).emitWhen _).bind fun _ _ => agree_emitU32 _ _

/-! ### Relocations -/

variable {start : UInt32}

/-- A relocation is noted in front of its bytes. -/
lemma addReloc_emitBytes {type : RelocType} {t₁ : Out Relocation}
    (hname : ∀ n, name = some n → (ctx.externalSymbolValue n).isSome)
    (hsize : bs.length = type.size) (hstart : start = t.offset)
    (h : ctx.addRelocation start type name t = some (u, t₁))
    (h' : emitBytes ctx true bs t₁ = some (u', t')) : Grew ctx t t' := by
  obtain ⟨hoffset', hbytes', hrecords', hwithin'⟩ := emitBytes_some h'
  rw [Context.addRelocation] at h
  split at h
  next =>
    obtain ⟨-, rfl⟩ := Prod.mk.inj (some.inj h)
    exact .of_bytes hbytes' hoffset' hrecords' hwithin'
  next capacity hcapacity =>
    split_ifs at h with hroom hlong
    obtain ⟨-, rfl⟩ := Prod.mk.inj (some.inj h)
    refine ⟨⟨bs, hbytes', hoffset'⟩, ⟨[_], hrecords', fun r hr => ?_⟩, fun capacity' h' _ => ?_,
      hwithin'⟩
    · obtain rfl := mem_singleton.mp hr
      refine ⟨hstart ▸ le_rfl, ?_, by simp only; omega, ?_⟩
      · rw [hstart, hoffset', hsize]
      · cases name with
        | none => exact .inl rfl
        | some n => exact .inr (hname n rfl)
    · cases hcapacity.symm.trans h'
      rw [hrecords', length_append, length_singleton]
      omega

lemma addReloc_offset {type : RelocType} (h : ctx.addRelocation start type name t = some (u, t')) :
    t'.offset = t.offset := by
  rw [Context.addRelocation] at h
  split at h
  next => cases h; rfl
  next =>
    split_ifs at h
    cases h
    rfl

/-- What a relocation has to be for the bytes behind it. -/
def RelocFits (ctx : Context) (size : ℕ) (reloc : Option (RelocType × Option Text)) : Prop :=
  ∀ type name, reloc = some (type, name) →
    type.size = size ∧ ∀ n, name = some n → (ctx.externalSymbolValue n).isSome

/-- A field with its relocation, where the emitting pass stands at the offset it notes. -/
lemma agree_relocated {start' : UInt32} {reloc reloc' : Option (RelocType × Option Text)}
    (hstart : start' = t.offset) (hlength : bs.length = bs'.length)
    (hreloc : RelocFits ctx bs'.length reloc')
    (hm : (do emitRelocation ctx₀ false start reloc; emitBytes ctx₀ false bs : Code) s = some (u, s'))
    (he : (do emitRelocation ctx true start' reloc'; emitBytes ctx true bs' : Code) t =
      some (u', t')) :
    (∃ n, s'.offset = s.offset + n ∧ t'.offset = t.offset + n) ∧ Grew ctx t t' := by
  obtain ⟨_, s₁, hm₁, hm₂⟩ := bind_eq_some.mp hm
  obtain ⟨-, rfl⟩ := pure_eq_some.mp hm₁
  rcases reloc' with _ | reloc'
  · obtain ⟨_, t₁, he₁, he₂⟩ := bind_eq_some.mp he
    obtain ⟨-, rfl⟩ := pure_eq_some.mp he₁
    exact agree_bytes hlength hm₂ he₂
  obtain ⟨type, name⟩ := reloc'
  obtain ⟨_, t₁, hadd, he₂⟩ := bind_eq_some.mp he
  obtain ⟨hsize, hname⟩ := hreloc type name rfl
  obtain ⟨n, hs, ht⟩ := (agree_bytes hlength hm₂ he₂).1
  rw [addReloc_offset hadd] at ht
  exact ⟨⟨n, hs, ht⟩, addReloc_emitBytes hname hsize.symm hstart hadd he₂⟩

lemma relocFits_relocName (label : Text) :
    RelocFits ctx 4 (some (.rip32, ctx.externalRelocName label)) := by
  rintro type name h
  obtain ⟨rfl, rfl⟩ := Prod.mk.inj (some.inj h)
  refine ⟨rfl, fun n hn => ?_⟩
  rw [Context.externalRelocName] at hn
  split_ifs at hn with hext
  cases hn
  exact hext

lemma agree_modrmRip (reg : ℕ) (displacement displacement' : UInt32) (label : Text) :
    Abreast (Grew ctx)
      (emitModrmRipRelative ctx₀ false reg displacement (ctx₀.externalRelocName label))
      (emitModrmRipRelative ctx true reg displacement' (ctx.externalRelocName label)) := by
  refine (agree_byte _ _).bind fun _ _ => ?_
  intro s t _ s' _ t' hm he
  obtain ⟨_, s₁, hm₁, hm₂⟩ := bind_eq_some.mp hm
  obtain ⟨rfl, rfl⟩ := offset_eq_some.mp hm₁
  obtain ⟨_, t₁, he₁, he₂⟩ := bind_eq_some.mp he
  obtain ⟨rfl, rfl⟩ := offset_eq_some.mp he₁
  refine agree_relocated rfl (by simp) ?_ hm₂ he₂
  exact relocFits_relocName label

lemma rexByte_w_ne (r b : ℕ) : (rexByte true r b != 0x40) = true := by
  rw [rexByte, if_pos rfl]
  split_ifs <;> rfl

/-- With REX and one opcode byte in front, the immediate of a 64-bit `mov` is at offset 2. -/
lemma agree_movImm64 (reg : ℕ) (value value' : UInt64)
    {reloc reloc' : Option (RelocType × Option Text)} (hreloc : RelocFits ctx 8 reloc') :
    Abreast (Grew ctx) (emitMovImm64 ctx₀ false reg value reloc)
      (emitMovImm64 ctx true reg value' reloc') := by
  intro s t _ s' _ t' hm he
  obtain ⟨_, _, hm₀, hm₁⟩ := bind_eq_some.mp hm
  obtain ⟨rfl, rfl⟩ := offset_eq_some.mp hm₀
  obtain ⟨_, s₁, hmrex, hm₂⟩ := bind_eq_some.mp hm₁
  obtain ⟨_, s₂, hmop, hm₃⟩ := bind_eq_some.mp hm₂
  obtain ⟨_, _, he₀, he₁⟩ := bind_eq_some.mp he
  obtain ⟨rfl, rfl⟩ := offset_eq_some.mp he₀
  obtain ⟨_, t₁, herex, he₂⟩ := bind_eq_some.mp he₁
  obtain ⟨_, t₂, heop, he₃⟩ := bind_eq_some.mp he₂
  -- what stands in front of the field moves both passes alike
  have hfront : Alike ctx₀ ctx fun ctx emit => emitRex ctx emit true 0 reg >>= fun _ =>
      emitByte ctx emit (0xB8 + (reg &&& 7)).toUInt8 :=
    (alike_rex true 0 reg).bind fun _ _ => agree_byte _ _
  obtain ⟨⟨n, hs, ht⟩, hgrew⟩ := hfront (bind_eq_some.mpr ⟨_, _, hmrex, hmop⟩)
    (bind_eq_some.mpr ⟨_, _, herex, heop⟩)
  have hstart : t.offset + 2 = t₂.offset := by
    rw [emitRex, rexByte_w_ne, emitWhen, if_pos rfl] at herex
    apply UInt32.toNat_inj.mp
    have hlt := t₂.offset.toNat_lt
    rw [(emitByte_some heop).1, (emitByte_some herex).1] at hlt ⊢
    rw [UInt32.toNat_add]
    exact Nat.mod_eq_of_lt (show t.offset.toNat + 2 < 2 ^ 32 by omega)
  have hfits : RelocFits ctx (leBytes 8 value'.toNat).length reloc' := by rwa [length_leBytes]
  obtain ⟨⟨n', hs', ht'⟩, hgrew'⟩ := agree_relocated hstart (by simp) hfits hm₃ he₃
  refine ⟨⟨n + n', ?_, ?_⟩, Trans.trans hgrew hgrew'⟩
  · rw [hs', hs, UInt32.add_assoc]
  · rw [ht', ht, UInt32.add_assoc]

/-! ### Register forms -/

lemma alike_regRegOp (opcode : UInt8) (w : Bool) (dst src : Reg) :
    Alike ctx₀ ctx (emitRegRegOp · · opcode w dst src) := by
  refine .guard ((alike_rex _ _ _).bind fun _ _ => ?_)
  exact (agree_byte _ _).bind fun _ _ => alike_modrmReg _ _

lemma alike_regRegTwoByteOp (opcode2 : UInt8) (w : Bool) (dst src : Reg) :
    Alike ctx₀ ctx (emitRegRegTwoByteOp · · opcode2 w dst src) := by
  refine .guard ((alike_rex _ _ _).bind fun _ _ => ?_)
  refine (agree_byte _ _).bind fun _ _ => ?_
  exact (agree_byte _ _).bind fun _ _ => alike_modrmReg _ _

lemma alike_group (opcode : UInt8) (group : ℕ) (w : Bool) (reg : Reg) :
    Alike ctx₀ ctx (emitGroup · · opcode group w reg) := by
  refine (alike_rex _ _ _).bind fun _ _ => ?_
  exact (agree_byte _ _).bind fun _ _ => alike_modrmReg _ _

lemma agree_group1Imm32 (group : ℕ) (w : Bool) (dst : Reg) (value value' : UInt64) :
    Abreast (Grew ctx) (emitGroup1Imm32 ctx₀ false group w dst value)
      (emitGroup1Imm32 ctx true group w dst value') :=
  Abreast.guard ((alike_group _ _ _ _).bind fun _ _ => agree_emitU32 _ _)

/-! ### Memory forms -/

variable (labels labels' : List Label)

lemma agree_ripForm (opsize w : Bool) (reg : ℕ) (opcode : List UInt8) (label : Text)
    (tail : UInt32) :
    Abreast (Grew ctx) (emitRipForm ctx₀ false labels opsize w reg opcode label tail)
      (emitRipForm ctx true labels' opsize w reg opcode label tail) := by
  refine Abreast.offset.bind fun _ _ => ?_
  refine (Abreast.lift _ _).bind fun _ _ => ?_
  refine ((agree_byte _ _).emitWhen _).bind fun _ _ => ?_
  refine (alike_rex _ _ _).bind fun _ _ => ?_
  exact (agree_bytes rfl).bind fun _ _ => agree_modrmRip _ _ _ _

lemma alike_baseForm (opsize w : Bool) (reg : ℕ) (opcode : List UInt8) (base : Reg)
    (displacement : Int32) :
    Alike ctx₀ ctx (emitBaseForm · · opsize w reg opcode base displacement) := by
  refine ((agree_byte _ _).emitWhen _).bind fun _ _ => ?_
  refine (alike_rex _ _ _).bind fun _ _ => ?_
  exact (agree_bytes rfl).bind fun _ _ => alike_modrmDisp _ _ _

lemma agree_movRegMemLabel (dst : Reg) (label : Text) :
    Abreast (Grew ctx) (emitMovRegMemLabel ctx₀ false labels dst label)
      (emitMovRegMemLabel ctx true labels' dst label) :=
  Abreast.guard (agree_ripForm _ _ _ _ _ _ _ _)

lemma alike_movRegMemBase (dst base : Reg) (displacement : Int32) (memBits : ℕ) :
    Alike ctx₀ ctx (emitMovRegMemBase · · dst base displacement memBits) :=
  Abreast.guard (alike_baseForm _ _ _ _ _ _)

lemma agree_movMemLabelReg (label : Text) (src : Reg) :
    Abreast (Grew ctx) (emitMovMemLabelReg ctx₀ false labels label src)
      (emitMovMemLabelReg ctx true labels' label src) :=
  Abreast.guard (agree_ripForm _ _ _ _ _ _ _ _)

lemma alike_movMemBaseReg (base : Reg) (displacement : Int32) (memBits : ℕ) (src : Reg) :
    Alike ctx₀ ctx (emitMovMemBaseReg · · base displacement memBits src) :=
  Abreast.guard (alike_baseForm _ _ _ _ _ _)

lemma agree_imm (bits : ℕ) (value value' : UInt64) :
    Abreast (Grew ctx) (emitImm ctx₀ false bits value) (emitImm ctx true bits value') :=
  Abreast.ite (agree_byte _ _) (.ite (agree_emitU16 _ _) (agree_emitU32 _ _))

lemma agree_movMemLabelImm (label : Text) (memBits : ℕ) (value value' : UInt64) :
    Abreast (Grew ctx) (emitMovMemLabelImm ctx₀ false labels label memBits value)
      (emitMovMemLabelImm ctx true labels' label memBits value') :=
  Abreast.guard ((agree_ripForm _ _ _ _ _ _ _ _).bind fun _ _ => agree_imm _ _ _)

lemma agree_movMemBaseImm (base : Reg) (displacement : Int32) (memBits : ℕ)
    (value value' : UInt64) :
    Abreast (Grew ctx) (emitMovMemBaseImm ctx₀ false base displacement memBits value)
      (emitMovMemBaseImm ctx true base displacement memBits value') :=
  Abreast.guard ((alike_baseForm _ _ _ _ _ _).bind fun _ _ => agree_imm _ _ _)

lemma agree_regMemLabelOp (opcode : UInt8) (dst : Reg) (label : Text) :
    Abreast (Grew ctx) (emitRegMemLabelOp ctx₀ false labels opcode dst label)
      (emitRegMemLabelOp ctx true labels' opcode dst label) :=
  Abreast.guard (agree_ripForm _ _ _ _ _ _ _ _)

lemma agree_extendingLoad (w : Bool) (opcode : List UInt8) (dst : Reg) (mem : Mem) :
    Abreast (Grew ctx) (emitExtendingLoad ctx₀ false labels w opcode dst mem)
      (emitExtendingLoad ctx true labels' w opcode dst mem) := by
  cases mem with
  | label label bits => exact agree_ripForm _ _ _ _ _ _ _ _
  | base base displacement bits => exact alike_baseForm _ _ _ _ _ _

/-! ### Jumps -/

variable {target : Text}

lemma emitRelative_emitting {opcode : List UInt8} {t t' : Out Relocation} {u : Unit}
    (h : emitRelative ctx true labels opcode target t = some (u, t')) :
    t'.offset.toNat = t.offset.toNat + opcode.length + 4 ∧ Grew ctx t t' := by
  obtain ⟨_, t₀, h₀, h₁⟩ := bind_eq_some.mp h
  obtain ⟨-, rfl⟩ := offset_eq_some.mp h₀
  obtain ⟨rel, t₁, h₂, h₃⟩ := bind_eq_some.mp h₁
  obtain ⟨-, rfl⟩ := lift_eq_some.mp h₂
  obtain ⟨_, t₂, hop, hrel⟩ := bind_eq_some.mp h₃
  obtain ⟨hoffset₁, hbytes₁, hrecords₁, hwithin₁⟩ := emitBytes_some hop
  obtain ⟨hoffset₂, hbytes₂, hrecords₂, hwithin₂⟩ := emitBytes_some hrel
  rw [length_leBytes] at hoffset₂
  have hbytes : t'.bytes = t.bytes ++ (opcode ++ leBytes 4 rel.toNat) := by
    rw [hbytes₂, hbytes₁, if_pos rfl, if_pos rfl, append_assoc]
  refine ⟨by rw [hoffset₂, hoffset₁], .of_bytes hbytes ?_ (hrecords₂.trans hrecords₁)
    (hwithin₂ ∘ hwithin₁)⟩
  rw [hoffset₂, hoffset₁, length_append, length_leBytes, Nat.add_assoc]

/-- The measuring pass adds up the length without looking at the bytes. Where its sum wraps, there is
no room for the bytes of the other pass. -/
lemma agree_relative (opcode : List UInt8) (target : Text) :
    Abreast (Grew ctx) (emitRelative ctx₀ false labels opcode target)
      (emitRelative ctx true labels' opcode target) := by
  intro s t _ s' _ t' hm he
  obtain ⟨hoffset, hgrew⟩ := emitRelative_emitting labels' he
  refine ⟨⟨opcode.length.toUInt32 + 4, ?_, ?_⟩, hgrew⟩
  · rw [emitRelative, if_neg (by decide)] at hm
    split_ifs at hm
    obtain ⟨-, rfl⟩ := Prod.mk.inj (some.inj hm)
    rfl
  · rw [Nat.add_assoc] at hoffset
    rw [offset_eq_add hoffset, Nat.toUInt32_eq, UInt32.ofNat_add]
    rfl

/-- The address of the name is loaded into a register. -/
def Context.isFar (ctx : Context) (target : Text) : Bool :=
  (ctx.externalSymbolValue target).isSome || (ctx.symbolValue target).isSome

lemma emitTarget_far (hregister : register target = none) (hfar : ctx.isFar target = true) :
    ∃ value reloc, RelocFits ctx 8 reloc ∧ ∀ emit labels relOpcode regGroup,
      emitCallJmpTarget ctx emit labels target relOpcode regGroup = (do
        emitMovImm64 ctx emit 0 value reloc
        emitGroup ctx emit 0xFF regGroup true ⟨0, 64⟩) := by
  cases hext : ctx.externalSymbolValue target with
  | some v =>
    refine ⟨v, some (.abs64, some target), ?_, fun emit labels relOpcode regGroup => ?_⟩
    · rintro type name h
      obtain ⟨rfl, rfl⟩ := Prod.mk.inj (some.inj h)
      refine ⟨rfl, fun n hn => ?_⟩
      cases hn
      simp [hext]
    · rw [emitCallJmpTarget, hregister, hext]
  | none =>
    rw [Context.isFar, hext] at hfar
    obtain ⟨v, hv⟩ := Option.isSome_iff_exists.mp hfar
    refine ⟨v, none, fun _ _ h => (nomatch h), fun emit labels relOpcode regGroup => ?_⟩
    rw [emitCallJmpTarget, hregister, hext, hv]

lemma emitTarget_near (hregister : register target = none)
    (hfar : ctx.isFar target = false) (emit : Bool) (relOpcode : UInt8) (regGroup : ℕ) :
    emitCallJmpTarget ctx emit labels target relOpcode regGroup =
      emitRelative ctx emit labels [relOpcode] target := by
  obtain ⟨hext, hkernel⟩ := Bool.or_eq_false_iff.mp hfar
  rw [emitCallJmpTarget, hregister, Option.isSome_eq_false_iff.mp hext |> Option.isNone_iff_eq_none.mp,
    Option.isSome_eq_false_iff.mp hkernel |> Option.isNone_iff_eq_none.mp]

/-- The length depends on whether the name is one whose address is loaded. -/
lemma agree_target (h : register target = none → ctx₀.isFar target = ctx.isFar target)
    (relOpcode : UInt8) (regGroup : ℕ) : Abreast (Grew ctx)
    (emitCallJmpTarget ctx₀ false labels target relOpcode regGroup)
      (emitCallJmpTarget ctx true labels' target relOpcode regGroup) := by
  cases hregister : register target with
  | some reg =>
    simp only [emitCallJmpTarget, hregister]
    exact .guard (alike_group _ _ _ _)
  | none =>
    cases hfar : ctx.isFar target with
    | true =>
      obtain ⟨v₀, reloc₀, -, h₀⟩ := emitTarget_far hregister ((h hregister).trans hfar)
      obtain ⟨v, reloc, hfits, h₁⟩ := emitTarget_far hregister hfar
      rw [h₀, h₁]
      exact (agree_movImm64 _ _ _ hfits).bind fun _ _ => alike_group _ _ _ _
    | false =>
      rw [emitTarget_near _ hregister ((h hregister).trans hfar), emitTarget_near _ hregister hfar]
      exact agree_relative _ _ _ _

end Asm
