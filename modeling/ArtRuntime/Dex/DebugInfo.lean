import ArtRuntime.Dex.CodeItem

/-!
# Debug Info: the Verifier and the Decoder

A method's `debug_info_item` is a byte stream: a start line and the parameter
names as LEB128 values, then the opcodes of a small machine that moves an
address and a line and starts and ends the live ranges of locals in
registers. `DexFileVerifier::CheckIntraDebugInfoItem` checks the stream when
the file is opened; `DexFile::DecodeDebugInfo0` runs it whenever the runtime
wants line numbers or locals. With a local callback the decoder keeps one
`LocalInfo` per register in `local_in_reg`, the array of `registers_size_`
entries that `DecodeDebugInfo` allocates.

The verifier bounds a register operand only by `65536`. The decoder bounds it
itself, with `reg > registers_size_`, which lets `registers_size_` through: a
verified stream that names that register makes the decoder read and write one
entry past the array (`decodeDebugInfo0_touches_past_end`). It is never more
than that one entry, for any stream (`decodeDebugInfo0_touched_le`).

The model logs every index of `local_in_reg` that the decoder reads or writes
(`touched`) and keeps the array as a function on all indices, so that an
access past the end is recorded rather than undefined. The callbacks are what
they receive: the local callback's calls are logged, and the position callback
is a function whose answer can stop the decoder. Where the source reads on past
the end of the data, the model stops (`DebugExit.truncated`).

## Main definitions

* `DexFile.LocalInfo`: The per-register record the decoder uses; of the
  `CodeItem` it reads `registers_size_`, `ins_size_` and
  `insns_size_in_code_units_`.
* `DexFile.DecodeState`: The decoder's variables and what it has done.
* `DexFile.decodeParameters`: The loop over the parameter names.
* `DexFile.decodeOp`: One turn of the opcode loop, with `startLocal`,
  `endLocal`, `restartLocal` and `special`.
* `DexFile.decodeDebugInfo0`, `DexFile.decodeDebugInfo`: The decoder, and its
  caller that allocates `local_in_reg` and flushes the live locals.
* `DexFileVerifier.checkIntraDebugInfoItem`: The verifier's check.
* `DexFile.TouchedUpTo`: A run touched only indices up to a bound.

## Theorems

* `DexFile.decodeOp_touchedUpTo`: One turn touches only registers up to
  `registers_size_`.
* `DexFile.decodeDebugInfo0_touched_le`: The decoder touches no index past
  `registers_size_`, for every stream and every method whose `ins_size_` fits.
* `DexFile.decodeDebugInfo_touched_le`: The same for `DecodeDebugInfo`.
* `DexFile.decodeDebugInfo0_touches_past_end`: For every register file, the
  verified stream `DBG_END_LOCAL registers_size_` makes the decoder touch
  `local_in_reg[registers_size_]`.
-/

namespace ArtRuntime

namespace DexFile

open Leb128 DexTables

/-! ### What the decoder reads of the dex file -/

/-- `DexFile::kDexNoIndex`. -/
def kDexNoIndex : UInt32 := 0xFFFFFFFF

/-- `DexFile::StringDataByIdx`: `NULL` for `kDexNoIndex`, else the memory of
    the string's characters. -/
def stringDataByIdx (d : DexTables) (idx : UInt32) : Option (List UInt8) :=
  if idx = kDexNoIndex then none else some (d.getStringData idx.toNat)

/-- `DexFile::StringByTypeIdx`: the descriptor of a type. -/
def stringByTypeIdx (d : DexTables) (idx : UInt32) : Option (List UInt8) :=
  stringDataByIdx d (d.getTypeId idx.toNat).descriptor_idx_

/-- `DexFile::LocalInfo`; `{}` is a default-constructed one. -/
structure LocalInfo where
  name_ : Option (List UInt8) := none
  descriptor_ : Option (List UInt8) := none
  signature_ : Option (List UInt8) := none
  start_address_ : UInt16 := 0
  is_live_ : Bool := false

/-- One call of the local callback. -/
structure LocalEntry where
  reg : UInt16
  start_address : UInt32
  end_address : UInt32
  name : Option (List UInt8)
  descriptor : Option (List UInt8)
  signature : List UInt8

def DBG_END_SEQUENCE : UInt8 := 0x00
def DBG_ADVANCE_PC : UInt8 := 0x01
def DBG_ADVANCE_LINE : UInt8 := 0x02
def DBG_START_LOCAL : UInt8 := 0x03
def DBG_START_LOCAL_EXTENDED : UInt8 := 0x04
def DBG_END_LOCAL : UInt8 := 0x05
def DBG_RESTART_LOCAL : UInt8 := 0x06
def DBG_SET_PROLOGUE_END : UInt8 := 0x07
def DBG_SET_EPILOGUE_BEGIN : UInt8 := 0x08
def DBG_SET_FILE : UInt8 := 0x09
def DBG_FIRST_SPECIAL : UInt8 := 0x0a
def DBG_LINE_BASE : Int := -4
def DBG_LINE_RANGE : Int := 15

/-- How `DecodeDebugInfo0` returns. The texts it logs are left out. -/
inductive DebugExit
  /-- `DBG_END_SEQUENCE`. -/
  | endSequence
  /-- "invalid stream - arg reg >= reg size". -/
  | argReg
  /-- "invalid stream - problem with parameter iterator". -/
  | parameterIterator
  /-- "invalid stream - reg > reg size". -/
  | regSize
  /-- "invalid stream - no name or descriptor". -/
  | noNameOrDescriptor
  /-- The position callback asked to stop. -/
  | positionCb
  /-- A parameter type with no descriptor, where the source reads through
      `NULL`. -/
  | nullDescriptor
  /-- A read past the end of the data, where the source reads on. -/
  | truncated
  deriving DecidableEq

/-! ### The decoder -/

/-- The decoder's `address` and `line`, the register array, and its log. -/
structure DecodeState where
  address : UInt32
  line : UInt32
  local_in_reg : Nat → LocalInfo
  /-- Every index of `local_in_reg` read or written, latest first. -/
  touched : List Nat
  /-- The local callback's calls, latest first. -/
  locals : List LocalEntry
  /-- The position callback's calls, latest first. -/
  positions : List (UInt32 × UInt32)

namespace DecodeState

/-- The state before the first opcode: address `0`, the start line. -/
def init (line : UInt32) (local_in_reg : Nat → LocalInfo) : DecodeState :=
  ⟨0, line, local_in_reg, [], [], []⟩

/-- A read of `local_in_reg[reg]`. -/
def touch (st : DecodeState) (reg : Nat) : DecodeState :=
  { st with touched := reg :: st.touched }

/-- A write of `local_in_reg[reg]`. -/
def write (st : DecodeState) (reg : Nat) (info : LocalInfo) : DecodeState :=
  { st with local_in_reg := Function.update st.local_in_reg reg info, touched := reg :: st.touched }

@[simp] theorem touch_touched (st : DecodeState) (reg : Nat) :
    (st.touch reg).touched = reg :: st.touched := rfl

@[simp] theorem write_touched (st : DecodeState) (reg : Nat) (info : LocalInfo) :
    (st.write reg info).touched = reg :: st.touched := rfl

@[simp] theorem touch_address (st : DecodeState) (reg : Nat) :
    (st.touch reg).address = st.address := rfl

end DecodeState

/-- `DexFile::InvokeLocalCbIfLive`: with a local callback, read the entry and
    report it if it is live. -/
def invokeLocalCbIfLive (need_locals : Bool) (st : DecodeState) (reg : UInt16)
    (end_address : UInt32) : DecodeState :=
  if need_locals then
    let info := st.local_in_reg reg.toNat
    let st := st.touch reg.toNat
    if info.is_live_ then
      -- a `NULL` signature goes out as `""`, whose memory is its terminator
      { st with locals := ⟨reg, info.start_address_.toUInt32, end_address, info.name_,
          info.descriptor_, info.signature_.getD [0]⟩ :: st.locals }
    else st
  else st

/-- `arg_reg` moves by two for a `D` or `J` descriptor, by one otherwise. -/
def argWidth (descriptor : List UInt8) : UInt16 :=
  if descriptor.head? = some 'D'.toUInt8 ∨ descriptor.head? = some 'J'.toUInt8 then 2 else 1

/-- The loop over the parameters: `parameters_size` names in the stream
    against the prototype's types, while both last. It returns the types
    left, the stream position and the state. -/
def decodeParameters (d : DexTables) (code_item : CodeItem) (need_locals : Bool)
    (data : List UInt8) :
    List UInt16 → Nat → UInt16 → Nat → DecodeState →
      Except (DecodeState × DebugExit) (List UInt16 × Nat × DecodeState)
  | [], _, _, stream, st => .ok ([], stream, st)
  | types, 0, _, stream, st => .ok (types, stream, st)
  | type_idx :: types, i + 1, arg_reg, stream, st =>
    if arg_reg ≥ code_item.registers_size_ then .error (st, .argReg)
    else
      match decodeUnsignedLeb128P1 data stream with
      | none => .error (st, .truncated)
      | some (id, stream) =>
        let descriptor := stringByTypeIdx d type_idx.toUInt32
        let st := if need_locals ∧ id ≠ kDexNoIndex then
            st.write arg_reg.toNat
              { name_ := stringDataByIdx d id, descriptor_ := descriptor,
                start_address_ := st.address.toUInt16, is_live_ := true }
          else st
        -- the width test reads the descriptor's first character
        match descriptor with
        | none => .error (st, .nullDescriptor)
        | some descriptor =>
          decodeParameters d code_item need_locals data types i (arg_reg + argWidth descriptor) stream st

/-- A turn of the opcode loop: go on at a stream position, or return. -/
inductive DecodeStep
  | next (stream : Nat) (st : DecodeState)
  | stop (st : DecodeState) (exit : DebugExit)

/-- The state a turn leaves. -/
def DecodeStep.state : DecodeStep → DecodeState
  | .next _ st => st
  | .stop st _ => st

/-- `reg = DecodeUnsignedLeb128(&stream)`, a `uint16_t`, and the test
    `reg > registers_size_` that each local opcode makes. -/
def decodeReg (code_item : CodeItem) (data : List UInt8) (stream : Nat) :
    Except DebugExit (UInt16 × Nat) :=
  match decodeUnsignedLeb128 data stream with
  | none => .error .truncated
  | some (value, stream) =>
    let reg := value.toUInt16
    if reg > code_item.registers_size_ then .error .regSize else .ok (reg, stream)

/-- `DBG_START_LOCAL` and, with `extended`, `DBG_START_LOCAL_EXTENDED`: report
    what the register held and start a local in it. The plain opcode keeps the
    register's signature. -/
def startLocal (d : DexTables) (code_item : CodeItem) (need_locals extended : Bool)
    (data : List UInt8) (stream : Nat) (st : DecodeState) : DecodeStep :=
  match decodeReg code_item data stream with
  | .error e => .stop st e
  | .ok (reg, stream) =>
    match decodeUnsignedLeb128P1 data stream with
    | none => .stop st .truncated
    | some (name_idx, stream) =>
      match decodeUnsignedLeb128P1 data stream with
      | none => .stop st .truncated
      | some (descriptor_idx, stream) =>
        match (if extended then decodeUnsignedLeb128P1 data stream else some (0, stream)) with
        | none => .stop st .truncated
        | some (signature_idx, stream) =>
          if need_locals then
            let st := invokeLocalCbIfLive need_locals st reg st.address
            let info := st.local_in_reg reg.toNat
            .next stream (st.write reg.toNat { info with
              name_ := stringDataByIdx d name_idx.toUInt16.toUInt32
              descriptor_ := stringByTypeIdx d descriptor_idx.toUInt16.toUInt32
              signature_ :=
                if extended then stringDataByIdx d signature_idx.toUInt16.toUInt32
                else info.signature_
              start_address_ := st.address.toUInt16
              is_live_ := true })
          else .next stream st

/-- `DBG_END_LOCAL`: report the local and mark the register dead. -/
def endLocal (code_item : CodeItem) (need_locals : Bool) (data : List UInt8) (stream : Nat)
    (st : DecodeState) : DecodeStep :=
  match decodeReg code_item data stream with
  | .error e => .stop st e
  | .ok (reg, stream) =>
    if need_locals then
      let st := invokeLocalCbIfLive need_locals st reg st.address
      .next stream (st.write reg.toNat { st.local_in_reg reg.toNat with is_live_ := false })
    else .next stream st

/-- `DBG_RESTART_LOCAL`: a register that had a local and is dead starts it
    again at the current address. -/
def restartLocal (code_item : CodeItem) (need_locals : Bool) (data : List UInt8) (stream : Nat)
    (st : DecodeState) : DecodeStep :=
  match decodeReg code_item data stream with
  | .error e => .stop st e
  | .ok (reg, stream) =>
    if need_locals then
      let info := st.local_in_reg reg.toNat
      let st := st.touch reg.toNat
      if info.name_ = none ∨ info.descriptor_ = none then .stop st .noNameOrDescriptor
      -- a live register keeps its start address
      else if !info.is_live_ then
        .next stream (st.write reg.toNat
          { info with start_address_ := st.address.toUInt16, is_live_ := true })
      else .next stream st
    else .next stream st

/-- A special opcode: move the address and the line together, and tell the
    position callback. -/
def special (position_cb : Option (UInt32 → UInt32 → Bool)) (opcode : UInt8) (stream : Nat)
    (st : DecodeState) : DecodeStep :=
  let adjopcode : Int := opcode.toNat - DBG_FIRST_SPECIAL.toNat
  -- `adjopcode` is not negative, where C's division and Lean's agree
  let st := { st with
    address := st.address + UInt32.ofInt (adjopcode / DBG_LINE_RANGE)
    line := st.line + UInt32.ofInt (DBG_LINE_BASE + adjopcode % DBG_LINE_RANGE) }
  match position_cb with
  | none => .next stream st
  | some position_cb =>
    let st := { st with positions := (st.address, st.line) :: st.positions }
    if position_cb st.address st.line then .stop st .positionCb else .next stream st

/-- One turn of the loop `for (;;)` of `DecodeDebugInfo0`. -/
def decodeOp (d : DexTables) (code_item : CodeItem) (position_cb : Option (UInt32 → UInt32 → Bool))
    (need_locals : Bool) (data : List UInt8) (stream : Nat) (st : DecodeState) : DecodeStep :=
  match data[stream]? with
  | none => .stop st .truncated
  | some opcode =>
    let stream := stream + 1
    if opcode = DBG_END_SEQUENCE then .stop st .endSequence
    else if opcode = DBG_ADVANCE_PC then
      match decodeUnsignedLeb128 data stream with
      | none => .stop st .truncated
      | some (value, stream) => .next stream { st with address := st.address + value }
    else if opcode = DBG_ADVANCE_LINE then
      match decodeSignedLeb128 data stream with
      | none => .stop st .truncated
      | some (value, stream) => .next stream { st with line := st.line + value.toUInt32 }
    else if opcode = DBG_START_LOCAL ∨ opcode = DBG_START_LOCAL_EXTENDED then
      startLocal d code_item need_locals (opcode = DBG_START_LOCAL_EXTENDED) data stream st
    else if opcode = DBG_END_LOCAL then endLocal code_item need_locals data stream st
    else if opcode = DBG_RESTART_LOCAL then restartLocal code_item need_locals data stream st
    -- the decoder reads no operand for `DBG_SET_FILE`
    else if opcode = DBG_SET_PROLOGUE_END ∨ opcode = DBG_SET_EPILOGUE_BEGIN ∨
        opcode = DBG_SET_FILE then .next stream st
    else special position_cb opcode stream st

section Advance

/-! Every turn that goes on moves past the opcode it read, so the loop ends. -/

variable {d : DexTables} {code_item : CodeItem} {position_cb : Option (UInt32 → UInt32 → Bool)}
  {need_locals : Bool} {data : List UInt8} {stream p : Nat} {st st' : DecodeState}

theorem lt_of_decodeReg {reg : UInt16} (h : decodeReg code_item data stream = .ok (reg, p)) :
    stream < p := by
  unfold decodeReg at h
  split at h
  · cases h
  · rename_i hd
    dsimp only at h
    split at h
    · cases h
    · cases h
      exact lt_of_decodeUnsignedLeb128 hd

theorem le_of_startLocal {extended : Bool}
    (h : startLocal d code_item need_locals extended data stream st = .next p st') : stream ≤ p := by
  unfold startLocal at h
  split at h
  · cases h
  rename_i reg s1 hreg
  have h1 := lt_of_decodeReg hreg
  split at h
  · cases h
  rename_i name_idx s2 hname
  have h2 := lt_of_decodeUnsignedLeb128P1 hname
  split at h
  · cases h
  rename_i descriptor_idx s3 hdesc
  have h3 := lt_of_decodeUnsignedLeb128P1 hdesc
  split at h
  · cases h
  rename_i signature_idx s4 hsig
  -- the signature index is read only by the extended opcode
  have h4 : s3 ≤ s4 := by
    split at hsig
    · exact (lt_of_decodeUnsignedLeb128P1 hsig).le
    · cases hsig
      exact Nat.le_refl _
  split at h <;> cases h <;> omega

theorem le_of_endLocal (h : endLocal code_item need_locals data stream st = .next p st') :
    stream ≤ p := by
  unfold endLocal at h
  split at h
  · cases h
  rename_i hreg
  have := lt_of_decodeReg hreg
  split at h <;> cases h <;> omega

theorem le_of_restartLocal (h : restartLocal code_item need_locals data stream st = .next p st') :
    stream ≤ p := by
  unfold restartLocal at h
  split at h
  · cases h
  rename_i hreg
  have := lt_of_decodeReg hreg
  split at h
  · dsimp only at h
    split at h
    · cases h
    · split at h <;> cases h <;> omega
  · cases h
    omega

theorem le_of_special {opcode : UInt8} (h : special position_cb opcode stream st = .next p st') :
    stream ≤ p := by
  unfold special at h
  dsimp only at h
  split at h
  · cases h
    exact Nat.le_refl _
  · split at h
    · cases h
    · cases h
      exact Nat.le_refl _

/-- A turn that goes on read its opcode inside the data and moved past it. -/
theorem lt_of_decodeOp (h : decodeOp d code_item position_cb need_locals data stream st = .next p st') :
    stream < data.length ∧ stream < p := by
  unfold decodeOp at h
  split at h
  · cases h
  rename_i opcode hop
  have hlen : stream < data.length := (List.getElem?_eq_some_iff.mp hop).1
  refine ⟨hlen, ?_⟩
  -- one case for each opcode group that goes on, each moving past `stream + 1`
  dsimp only at h
  split_ifs at h
  · split at h
    · cases h
    · cases h
      rename_i hd
      exact Nat.lt_of_succ_lt (lt_of_decodeUnsignedLeb128 hd)
  · split at h
    · cases h
    · cases h
      rename_i hd
      exact Nat.lt_of_succ_lt (lt_of_decodeSignedLeb128 hd)
  · exact le_of_startLocal h
  · exact le_of_endLocal h
  · exact le_of_restartLocal h
  · cases h
    exact Nat.lt_succ_self _
  · exact le_of_special h

end Advance

/-- The loop `for (;;)`: turns until one returns. -/
def decodeLoop (d : DexTables) (code_item : CodeItem) (position_cb : Option (UInt32 → UInt32 → Bool))
    (need_locals : Bool) (data : List UInt8) (stream : Nat) (st : DecodeState) :
    DecodeState × DebugExit :=
  match h : decodeOp d code_item position_cb need_locals data stream st with
  | .stop st e => (st, e)
  | .next p st' => decodeLoop d code_item position_cb need_locals data p st'
termination_by data.length - stream
decreasing_by
  have := lt_of_decodeOp h
  omega

/-- `DexFile::DecodeDebugInfo0` for the method `method_idx`, with the stream at
    `stream` in `data` and the register array `local_in_reg`; `need_locals`
    says that there is a local callback. -/
def decodeDebugInfo0 (d : DexTables) (code_item : CodeItem) (is_static : Bool) (method_idx : UInt32)
    (position_cb : Option (UInt32 → UInt32 → Bool)) (need_locals : Bool) (data : List UInt8)
    (stream : Nat) (local_in_reg : Nat → LocalInfo) : DecodeState × DebugExit :=
  match decodeUnsignedLeb128 data stream with
  | none => (.init 0 local_in_reg, .truncated)
  | some (line, stream) =>
    let st := DecodeState.init line local_in_reg
    match decodeUnsignedLeb128 data stream with
    | none => (st, .truncated)
    | some (parameters_size, stream) =>
      let arg_reg : UInt16 := code_item.registers_size_ - code_item.ins_size_
      let method_id := d.getMethodId method_idx.toNat
      -- the implicit `this` of an instance method takes the first in-register
      let st := if !is_static ∧ need_locals then
          st.write arg_reg.toNat
            { name_ := some ("this".toUTF8.toList ++ [0]),
              descriptor_ := stringByTypeIdx d method_id.class_idx_.toUInt32, is_live_ := true }
        else st
      let arg_reg := if !is_static then arg_reg + 1 else arg_reg
      let parameters := (d.getProtoId method_id.proto_idx_.toNat).parameters
      match decodeParameters d code_item need_locals data parameters parameters_size.toNat arg_reg
          stream st with
      | .error (st, e) => (st, e)
      | .ok (rest, stream, st) =>
        if rest ≠ [] then (st, .parameterIterator)
        else decodeLoop d code_item position_cb need_locals data stream st

/-- `DexFile::DecodeDebugInfo`: a default-constructed entry for each register,
    the decoder on the stream if there is one (`GetDebugInfoStream`), then a
    report of every local still live at the end of the code. -/
def decodeDebugInfo (d : DexTables) (code_item : CodeItem) (is_static : Bool) (method_idx : UInt32)
    (position_cb : Option (UInt32 → UInt32 → Bool)) (need_locals : Bool) (data : List UInt8)
    (stream : Option Nat) : DecodeState :=
  let local_in_reg : Nat → LocalInfo := fun _ => {}
  let st := match stream with
    | none => DecodeState.init 0 local_in_reg
    | some stream =>
      (decodeDebugInfo0 d code_item is_static method_idx position_cb need_locals data stream
        local_in_reg).1
  (List.range code_item.registers_size_.toNat).foldl
    (fun st reg => invokeLocalCbIfLive need_locals st reg.toUInt16 code_item.insns_size_in_code_units_)
    st

end DexFile

/-! ### The verifier -/

namespace DexFileVerifier

open Leb128 DexFile

/-- A string index as the item stores it, plus one with `0` for none, checked
    against `string_ids_size_`: `none` for a read past the data, `some none`
    for a rejection, else the position after it. -/
def checkStringIdxP1 (data : List UInt8) (string_ids_size : UInt32) (ptr : Nat) :
    Option (Option Nat) :=
  match decodeUnsignedLeb128 data ptr with
  | none => none
  | some (idx, ptr) =>
    if idx ≠ 0 ∧ !checkIndex (idx - 1) string_ids_size then some none else some (some ptr)

/-- A register operand, checked against `65536`. -/
def checkRegNum (data : List UInt8) (ptr : Nat) : Option (Option Nat) :=
  match decodeUnsignedLeb128 data ptr with
  | none => none
  | some (reg_num, ptr) => if reg_num ≥ 65536 then some none else some (some ptr)

/-- The checks of an opcode's operands, one after the other. -/
def checkSeq : List (Nat → Option (Option Nat)) → Nat → Option (Option Nat)
  | [], ptr => some (some ptr)
  | check :: checks, ptr =>
    match check ptr with
    | some (some ptr) => checkSeq checks ptr
    | r => r

/-- One turn of the verifier's loop: `none` for a read past the data, an
    error for a return (the position after the item, or `none` for a
    rejection), else the position of the next opcode. -/
def checkDebugOp (data : List UInt8) (string_ids_size : UInt32) (ptr : Nat) :
    Option (Except (Option Nat) Nat) :=
  match data[ptr]? with
  | none => none
  | some opcode =>
    let ptr := ptr + 1
    let operands (checks : List (Nat → Option (Option Nat))) : Option (Except (Option Nat) Nat) :=
      (checkSeq checks ptr).map fun r => match r with
        | some ptr => .ok ptr
        | none => .error none
    let name := checkStringIdxP1 data string_ids_size
    if opcode = DBG_END_SEQUENCE then some (.error (some ptr))
    else if opcode = DBG_ADVANCE_PC then (decodeUnsignedLeb128 data ptr).map fun (_, ptr) => .ok ptr
    else if opcode = DBG_ADVANCE_LINE then (decodeSignedLeb128 data ptr).map fun (_, ptr) => .ok ptr
    else if opcode = DBG_START_LOCAL then operands [checkRegNum data, name, name]
    else if opcode = DBG_END_LOCAL ∨ opcode = DBG_RESTART_LOCAL then operands [checkRegNum data]
    else if opcode = DBG_START_LOCAL_EXTENDED then operands [checkRegNum data, name, name, name]
    else if opcode = DBG_SET_FILE then operands [name]
    -- the switch has no default: any other opcode has no operand
    else some (.ok ptr)

theorem le_of_checkSeq {checks : List (Nat → Option (Option Nat))}
    (hc : ∀ check ∈ checks, ∀ p q, check p = some (some q) → p ≤ q) {p q : Nat}
    (h : checkSeq checks p = some (some q)) : p ≤ q := by
  induction checks generalizing p with
  | nil =>
    cases h
    exact Nat.le_refl _
  | cons check checks ih =>
    unfold checkSeq at h
    split at h
    · rename_i p' hp'
      have h1 := hc check (List.mem_cons_self ..) p p' hp'
      have h2 := ih (fun c hc' => hc c (List.mem_cons_of_mem _ hc')) h
      omega
    · -- a check that did not go on is what the sequence returns
      rename_i hr
      exact (hr q h).elim

theorem lt_of_checkRegNum {data : List UInt8} {p q : Nat} (h : checkRegNum data p = some (some q)) :
    p < q := by
  unfold checkRegNum at h
  split at h
  · cases h
  · rename_i hd
    split at h
    · cases h
    · cases h
      exact lt_of_decodeUnsignedLeb128 hd

theorem lt_of_checkStringIdxP1 {data : List UInt8} {string_ids_size : UInt32} {p q : Nat}
    (h : checkStringIdxP1 data string_ids_size p = some (some q)) : p < q := by
  unfold checkStringIdxP1 at h
  split at h
  · cases h
  · rename_i hd
    split at h
    · cases h
    · cases h
      exact lt_of_decodeUnsignedLeb128 hd

/-- A turn that goes on read its opcode inside the data and moved past it. -/
theorem lt_of_checkDebugOp {data : List UInt8} {string_ids_size : UInt32} {ptr p : Nat}
    (h : checkDebugOp data string_ids_size ptr = some (.ok p)) : ptr < data.length ∧ ptr < p := by
  unfold checkDebugOp at h
  split at h
  · cases h
  rename_i opcode hop
  refine ⟨(List.getElem?_eq_some_iff.mp hop).1, ?_⟩
  -- every operand check moves forward
  have hops : ∀ checks : List (Nat → Option (Option Nat)),
      (∀ check ∈ checks, ∀ p q, check p = some (some q) → p ≤ q) →
      (checkSeq checks (ptr + 1)).map (fun r => match r with
        | some ptr => (Except.ok ptr : Except (Option Nat) Nat)
        | none => .error none) = some (.ok p) → ptr < p := by
    intro checks hc hs
    obtain ⟨r, hr, hrp⟩ := Option.map_eq_some_iff.mp hs
    cases r with
    | none => cases hrp
    | some q =>
      cases hrp
      have := le_of_checkSeq hc hr
      omega
  have hreg : ∀ p q, checkRegNum data p = some (some q) → p ≤ q :=
    fun _ _ hq => (lt_of_checkRegNum hq).le
  have hname : ∀ p q, checkStringIdxP1 data string_ids_size p = some (some q) → p ≤ q :=
    fun _ _ hq => (lt_of_checkStringIdxP1 hq).le
  split_ifs at h
  · cases h
  · obtain ⟨⟨_, q⟩, hq, he⟩ := Option.map_eq_some_iff.mp h
    cases he
    exact Nat.lt_of_succ_lt (lt_of_decodeUnsignedLeb128 hq)
  · obtain ⟨⟨_, q⟩, hq, he⟩ := Option.map_eq_some_iff.mp h
    cases he
    exact Nat.lt_of_succ_lt (lt_of_decodeSignedLeb128 hq)
  · exact hops _ (by simp only [List.mem_cons, List.not_mem_nil, or_false]; rintro c (rfl | rfl | rfl) <;> assumption) h
  · exact hops _ (by simp only [List.mem_cons, List.not_mem_nil, or_false]; rintro c rfl; assumption) h
  · exact hops _ (by simp only [List.mem_cons, List.not_mem_nil, or_false]; rintro c (rfl | rfl | rfl | rfl) <;> assumption) h
  · exact hops _ (by simp only [List.mem_cons, List.not_mem_nil, or_false]; rintro c rfl; assumption) h
  · cases h
    exact Nat.lt_succ_self _

/-- The verifier's loop `while (true)` over the opcodes. -/
def checkDebugInfoLoop (data : List UInt8) (string_ids_size : UInt32) (ptr : Nat) :
    Option (Option Nat) :=
  match h : checkDebugOp data string_ids_size ptr with
  | none => none
  | some (.error r) => some r
  | some (.ok p) => checkDebugInfoLoop data string_ids_size p
termination_by data.length - ptr
decreasing_by
  have := lt_of_checkDebugOp h
  omega

/-- `DexFileVerifier::CheckIntraDebugInfoItem` with `ptr_` at `ptr`: `none` for
    a read past the data, `some none` for a rejection, else the position after
    the item. -/
def checkIntraDebugInfoItem (data : List UInt8) (string_ids_size : UInt32) (ptr : Nat) :
    Option (Option Nat) :=
  match decodeUnsignedLeb128 data ptr with
  | none => none
  | some (_, ptr) =>
    match decodeUnsignedLeb128 data ptr with
    | none => none
    | some (parameters_size, ptr) =>
      if parameters_size > 65536 then some none
      else
        match checkSeq (List.replicate parameters_size.toNat (checkStringIdxP1 data string_ids_size))
            ptr with
        | some (some ptr) => checkDebugInfoLoop data string_ids_size ptr
        | r => r

end DexFileVerifier

/-! ### What the decoder touches -/

namespace DexFile

open Leb128 DexFileVerifier

/-- The indices `st'` has touched are those of `st` with more in front, each
    at most `bound`. -/
def TouchedUpTo (bound : Nat) (st st' : DecodeState) : Prop :=
  ∃ new, st'.touched = new ++ st.touched ∧ ∀ r ∈ new, r ≤ bound

namespace TouchedUpTo

variable {bound : Nat} {st st' st'' : DecodeState}

theorem refl (bound : Nat) (st : DecodeState) : TouchedUpTo bound st st :=
  ⟨[], rfl, fun _ h => absurd h List.not_mem_nil⟩

theorem of_touched_eq (h : st'.touched = st.touched) : TouchedUpTo bound st st' :=
  ⟨[], h, fun _ h => absurd h List.not_mem_nil⟩

theorem trans (h₁ : TouchedUpTo bound st st') (h₂ : TouchedUpTo bound st' st'') :
    TouchedUpTo bound st st'' := by
  obtain ⟨new₁, e₁, b₁⟩ := h₁
  obtain ⟨new₂, e₂, b₂⟩ := h₂
  refine ⟨new₂ ++ new₁, by rw [e₂, e₁, List.append_assoc], fun r hr => ?_⟩
  rcases List.mem_append.mp hr with hr | hr
  · exact b₂ r hr
  · exact b₁ r hr

theorem touch {r : Nat} (h : r ≤ bound) : TouchedUpTo bound st (st.touch r) :=
  ⟨[r], rfl, fun _ hs => (List.mem_singleton.mp hs) ▸ h⟩

theorem write {r : Nat} {info : LocalInfo} (h : r ≤ bound) : TouchedUpTo bound st (st.write r info) :=
  ⟨[r], rfl, fun _ hs => (List.mem_singleton.mp hs) ▸ h⟩

/-- A write made only under some condition. -/
theorem write_if {c : Prop} [Decidable c] {r : Nat} {info : LocalInfo} (h : r ≤ bound) :
    TouchedUpTo bound st (if c then st.write r info else st) := by
  split
  · exact write h
  · exact refl _ _

/-- What was touched stays touched. -/
theorem mem (h : TouchedUpTo bound st st') {r : Nat} (hr : r ∈ st.touched) : r ∈ st'.touched := by
  obtain ⟨new, e, -⟩ := h
  rw [e]
  exact List.mem_append_right _ hr

/-- A run from a state that touched nothing past the bound touches nothing
    past it. -/
theorem le (h : TouchedUpTo bound st st') (hst : ∀ r ∈ st.touched, r ≤ bound) :
    ∀ r ∈ st'.touched, r ≤ bound := by
  obtain ⟨new, e, b⟩ := h
  intro r hr
  rw [e] at hr
  rcases List.mem_append.mp hr with hr | hr
  · exact b r hr
  · exact hst r hr

end TouchedUpTo

section Touched

variable {d : DexTables} {code_item : CodeItem} {position_cb : Option (UInt32 → UInt32 → Bool)}
  {need_locals : Bool} {data : List UInt8} {stream : Nat} {st : DecodeState}

theorem invokeLocalCbIfLive_touchedUpTo {bound : Nat} {reg : UInt16} (h : reg.toNat ≤ bound)
    (end_address : UInt32) :
    TouchedUpTo bound st (invokeLocalCbIfLive need_locals st reg end_address) := by
  unfold invokeLocalCbIfLive
  split
  · dsimp only
    split
    · exact TouchedUpTo.touch h
    · exact TouchedUpTo.touch h
  · exact TouchedUpTo.refl _ _

/-- The decoder's own bound: a register operand is at most `registers_size_`. -/
theorem le_of_decodeReg {reg : UInt16} {p : Nat} (h : decodeReg code_item data stream = .ok (reg, p)) :
    reg.toNat ≤ code_item.registers_size_.toNat := by
  unfold decodeReg at h
  split at h
  · cases h
  · dsimp only at h
    split at h
    · cases h
    · rename_i hgt
      cases h
      exact UInt16.le_iff_toNat_le.mp (UInt16.not_lt.mp hgt)

theorem startLocal_touchedUpTo {extended : Bool} :
    TouchedUpTo code_item.registers_size_.toNat st
      (startLocal d code_item need_locals extended data stream st).state := by
  unfold startLocal
  split
  · exact TouchedUpTo.refl _ _
  rename_i reg s1 hreg
  have hle := le_of_decodeReg hreg
  -- every way out before the write leaves the state as it was
  split
  · exact TouchedUpTo.refl _ _
  split
  · exact TouchedUpTo.refl _ _
  split
  · exact TouchedUpTo.refl _ _
  split
  · exact (invokeLocalCbIfLive_touchedUpTo hle _).trans (TouchedUpTo.write hle)
  · exact TouchedUpTo.refl _ _

theorem endLocal_touchedUpTo :
    TouchedUpTo code_item.registers_size_.toNat st
      (endLocal code_item need_locals data stream st).state := by
  unfold endLocal
  split
  · exact TouchedUpTo.refl _ _
  rename_i reg s1 hreg
  have hle := le_of_decodeReg hreg
  split
  · exact (invokeLocalCbIfLive_touchedUpTo hle _).trans (TouchedUpTo.write hle)
  · exact TouchedUpTo.refl _ _

theorem restartLocal_touchedUpTo :
    TouchedUpTo code_item.registers_size_.toNat st
      (restartLocal code_item need_locals data stream st).state := by
  unfold restartLocal
  split
  · exact TouchedUpTo.refl _ _
  rename_i reg s1 hreg
  have hle := le_of_decodeReg hreg
  split
  · dsimp only
    -- the entry is read before any of the three outcomes
    have hread : TouchedUpTo code_item.registers_size_.toNat st (st.touch reg.toNat) :=
      TouchedUpTo.touch hle
    split
    · exact hread
    split
    · exact hread.trans (TouchedUpTo.write hle)
    · exact hread
  · exact TouchedUpTo.refl _ _

theorem special_touchedUpTo {bound : Nat} {opcode : UInt8} :
    TouchedUpTo bound st (special position_cb opcode stream st).state := by
  unfold special
  dsimp only
  split
  · exact TouchedUpTo.of_touched_eq rfl
  · split
    · exact TouchedUpTo.of_touched_eq rfl
    · exact TouchedUpTo.of_touched_eq rfl

/-- One turn of the loop touches only registers up to `registers_size_`. -/
theorem decodeOp_touchedUpTo :
    TouchedUpTo code_item.registers_size_.toNat st
      (decodeOp d code_item position_cb need_locals data stream st).state := by
  unfold decodeOp
  split
  · exact TouchedUpTo.refl _ _
  dsimp only
  -- the opcodes that move the address or the line touch no register
  split_ifs
  · exact TouchedUpTo.refl _ _
  · split
    · exact TouchedUpTo.refl _ _
    · exact TouchedUpTo.of_touched_eq rfl
  · split
    · exact TouchedUpTo.refl _ _
    · exact TouchedUpTo.of_touched_eq rfl
  · exact startLocal_touchedUpTo
  · exact endLocal_touchedUpTo
  · exact restartLocal_touchedUpTo
  · exact TouchedUpTo.refl _ _
  · exact special_touchedUpTo

theorem decodeLoop_of_next {p : Nat} {st' : DecodeState}
    (h : decodeOp d code_item position_cb need_locals data stream st = .next p st') :
    decodeLoop d code_item position_cb need_locals data stream st =
      decodeLoop d code_item position_cb need_locals data p st' := by
  rw [decodeLoop]
  split
  · rename_i heq
    rw [h] at heq
    cases heq
  · rename_i heq
    rw [h] at heq
    cases heq
    rfl

/-- The whole loop touches only registers up to `registers_size_`, by
    induction on its turns. -/
theorem decodeLoop_touchedUpTo :
    TouchedUpTo code_item.registers_size_.toNat st
      (decodeLoop d code_item position_cb need_locals data stream st).1 := by
  fun_induction decodeLoop d code_item position_cb need_locals data stream st with
  | case1 stream st st' e h =>
    have hop : TouchedUpTo code_item.registers_size_.toNat st
        (decodeOp d code_item position_cb need_locals data stream st).state := decodeOp_touchedUpTo
    rw [h] at hop
    exact hop
  | case2 stream st p st' h ih =>
    have hop : TouchedUpTo code_item.registers_size_.toNat st
        (decodeOp d code_item position_cb need_locals data stream st).state := decodeOp_touchedUpTo
    rw [h] at hop
    exact hop.trans ih

/-- The state `decodeParameters` leaves, whether the decoder goes on or
    returns. -/
def paramsState : Except (DecodeState × DebugExit) (List UInt16 × Nat × DecodeState) → DecodeState
  | .error (st, _) => st
  | .ok (_, _, st) => st

/-- The parameter loop writes only below `registers_size_`: it tests each
    `arg_reg` before the write. -/
theorem decodeParameters_touchedUpTo {types : List UInt16} {i : Nat} {arg_reg : UInt16}
    {r : Except (DecodeState × DebugExit) (List UInt16 × Nat × DecodeState)}
    (h : decodeParameters d code_item need_locals data types i arg_reg stream st = r) :
    TouchedUpTo code_item.registers_size_.toNat st (paramsState r) := by
  subst h
  fun_induction decodeParameters d code_item need_locals data types i arg_reg stream st with
  | case1 => exact TouchedUpTo.refl _ _
  | case2 => exact TouchedUpTo.refl _ _
  | case3 => exact TouchedUpTo.refl _ _
  | case4 => exact TouchedUpTo.refl _ _
  | case5 _ _ _ arg_reg _ _ hreg =>
    exact TouchedUpTo.write_if (UInt16.lt_iff_toNat_lt.mp (UInt16.not_le.mp hreg)).le
  | case6 _ _ _ arg_reg _ _ hreg _ _ _ _ _ _ _ ih =>
    exact (TouchedUpTo.write_if (UInt16.lt_iff_toNat_lt.mp (UInt16.not_le.mp hreg)).le).trans ih

/-- The decoder reads and writes no entry past `registers_size_`, for every
    stream, every method and every callback, as long as `ins_size_` fits in
    the registers (which `CheckIntraCodeItem` checks). -/
theorem decodeDebugInfo0_touched_le (d : DexTables) (code_item : CodeItem) (is_static : Bool)
    (method_idx : UInt32) (position_cb : Option (UInt32 → UInt32 → Bool)) (need_locals : Bool)
    (data : List UInt8) (stream : Nat) (local_in_reg : Nat → LocalInfo)
    (hins : code_item.ins_size_ ≤ code_item.registers_size_) :
    ∀ r ∈ (decodeDebugInfo0 d code_item is_static method_idx position_cb need_locals data stream
      local_in_reg).1.touched, r ≤ code_item.registers_size_.toNat := by
  -- the run starts with nothing touched
  have hinit : ∀ line, ∀ r ∈ (DecodeState.init line local_in_reg).touched,
      r ≤ code_item.registers_size_.toNat := fun _ _ h => absurd h List.not_mem_nil
  -- the entry of `this`, `registers_size_ - ins_size_`, is inside
  have hthis : (code_item.registers_size_ - code_item.ins_size_).toNat ≤
      code_item.registers_size_.toNat := by
    rw [UInt16.toNat_sub_of_le _ _ hins]
    omega
  unfold decodeDebugInfo0
  split
  · exact hinit 0
  rename_i line s1 _
  split
  · exact hinit line
  dsimp only
  split
  · rename_i st' e hp
    exact ((TouchedUpTo.write_if hthis).trans (decodeParameters_touchedUpTo hp)).le (hinit line)
  · rename_i rest p st' hp
    have hpar := (TouchedUpTo.write_if hthis).trans (decodeParameters_touchedUpTo hp)
    split
    · exact hpar.le (hinit line)
    · exact (hpar.trans decodeLoop_touchedUpTo).le (hinit line)

/-- The flush loop of `DecodeDebugInfo` reads only the registers it is given. -/
theorem foldl_invokeLocalCbIfLive_touchedUpTo {bound : Nat} (need_locals : Bool) (end_address : UInt32)
    (regs : List Nat)
    (h : ∀ r ∈ regs, r ≤ bound) (st : DecodeState) :
    TouchedUpTo bound st (regs.foldl
      (fun st reg => invokeLocalCbIfLive need_locals st reg.toUInt16 end_address) st) := by
  induction regs generalizing st with
  | nil => exact TouchedUpTo.refl _ _
  | cons r regs ih =>
    have hr : r.toUInt16.toNat ≤ bound := by
      rw [UInt16.toNat_ofNat']
      exact (Nat.mod_le _ _).trans (h r (List.mem_cons_self ..))
    rw [List.foldl_cons]
    exact (invokeLocalCbIfLive_touchedUpTo hr end_address).trans
      (ih (fun r' hr' => h r' (List.mem_cons_of_mem _ hr')) _)

/-- `DecodeDebugInfo` reads and writes no entry past `registers_size_`. -/
theorem decodeDebugInfo_touched_le (d : DexTables) (code_item : CodeItem) (is_static : Bool)
    (method_idx : UInt32) (position_cb : Option (UInt32 → UInt32 → Bool)) (need_locals : Bool)
    (data : List UInt8) (stream : Option Nat)
    (hins : code_item.ins_size_ ≤ code_item.registers_size_) :
    ∀ r ∈ (decodeDebugInfo d code_item is_static method_idx position_cb need_locals data stream).touched,
      r ≤ code_item.registers_size_.toNat := by
  -- the flush loop runs over the registers below `registers_size_`
  have hflush := foldl_invokeLocalCbIfLive_touchedUpTo need_locals code_item.insns_size_in_code_units_ (List.range code_item.registers_size_.toNat)
    (fun r hr => (List.mem_range.mp hr).le)
  unfold decodeDebugInfo
  dsimp only
  split
  · exact (hflush _).le fun _ h => absurd h List.not_mem_nil
  · exact (hflush _).le (decodeDebugInfo0_touched_le d code_item is_static method_idx position_cb
      need_locals data _ _ hins)

end Touched

end DexFile

/-! ### One entry past the end -/

namespace DexFile

open Leb128 DexFileVerifier

/-- A debug_info_item that starts at line `0`, names no parameter, ends the
    local in register `reg` and ends the sequence. -/
def endLocalStream (reg : UInt16) : List UInt8 :=
  [0, 0, DBG_END_LOCAL] ++ pushBackLoop reg.toUInt32 ++ [DBG_END_SEQUENCE]

section Stream

variable (reg : UInt16)

theorem endLocalStream_decode_zero : decodeUnsignedLeb128 (endLocalStream reg) 0 = some (0, 1) := by
  simp [decodeUnsignedLeb128, endLocalStream]

theorem endLocalStream_decode_one : decodeUnsignedLeb128 (endLocalStream reg) 1 = some (0, 2) := by
  simp [decodeUnsignedLeb128, endLocalStream]

theorem endLocalStream_two : (endLocalStream reg)[2]? = some DBG_END_LOCAL := by
  simp [endLocalStream]

theorem endLocalStream_decode_reg : decodeUnsignedLeb128 (endLocalStream reg) 3 =
    some (reg.toUInt32, 3 + (pushBackLoop reg.toUInt32).length) :=
  decodeUnsignedLeb128_pushBackLoop [0, 0, DBG_END_LOCAL] [DBG_END_SEQUENCE] reg.toUInt32

theorem endLocalStream_end :
    (endLocalStream reg)[3 + (pushBackLoop reg.toUInt32).length]? = some DBG_END_SEQUENCE := by
  have h := getElem?_length_add ([0, 0, DBG_END_LOCAL] ++ pushBackLoop reg.toUInt32)
    [DBG_END_SEQUENCE] 0
  rw [List.length_append, Nat.add_zero] at h
  exact h

theorem length_endLocalStream :
    (endLocalStream reg).length = 3 + (pushBackLoop reg.toUInt32).length + 1 := by
  simp [endLocalStream]
  omega

end Stream

section Verifier

variable {data : List UInt8} {string_ids_size : UInt32} {ptr p : Nat}

theorem checkDebugInfoLoop_of_ok (h : checkDebugOp data string_ids_size ptr = some (.ok p)) :
    checkDebugInfoLoop data string_ids_size ptr = checkDebugInfoLoop data string_ids_size p := by
  rw [checkDebugInfoLoop]
  split <;> rename_i heq <;> rw [h] at heq <;> cases heq
  rfl

theorem checkDebugInfoLoop_of_error {r : Option Nat}
    (h : checkDebugOp data string_ids_size ptr = some (.error r)) :
    checkDebugInfoLoop data string_ids_size ptr = some r := by
  rw [checkDebugInfoLoop]
  split <;> rename_i heq <;> rw [h] at heq <;> cases heq
  rfl

theorem checkRegNum_eq {v : UInt32} (h : decodeUnsignedLeb128 data ptr = some (v, p))
    (hv : v < 65536) : checkRegNum data ptr = some (some p) := by
  unfold checkRegNum
  rw [h]
  dsimp only
  rw [if_neg (UInt32.not_le.mpr hv)]

/-- The verifier accepts `DBG_END_LOCAL` of any register a `uint16_t` holds. -/
theorem checkIntraDebugInfoItem_endLocalStream (reg : UInt16) (string_ids_size : UInt32) :
    checkIntraDebugInfoItem (endLocalStream reg) string_ids_size 0 =
      some (some (endLocalStream reg).length) := by
  have hreg : reg.toUInt32 < 65536 := by
    rw [UInt32.lt_iff_toNat_lt, UInt16.toNat_toUInt32]
    exact UInt16.toNat_lt reg
  -- the two opcodes: `DBG_END_LOCAL` with its register, then `DBG_END_SEQUENCE`
  have hop : checkDebugOp (endLocalStream reg) string_ids_size 2 =
      some (.ok (3 + (pushBackLoop reg.toUInt32).length)) := by
    unfold checkDebugOp
    rw [endLocalStream_two]
    simp [DBG_END_SEQUENCE, DBG_ADVANCE_PC, DBG_ADVANCE_LINE, DBG_START_LOCAL, DBG_END_LOCAL, checkSeq,
      checkRegNum_eq (endLocalStream_decode_reg reg) hreg]
  have hend : checkDebugOp (endLocalStream reg) string_ids_size
      (3 + (pushBackLoop reg.toUInt32).length) =
      some (.error (some (3 + (pushBackLoop reg.toUInt32).length + 1))) := by
    unfold checkDebugOp
    rw [endLocalStream_end]
    simp [DBG_END_SEQUENCE]
  unfold checkIntraDebugInfoItem
  rw [endLocalStream_decode_zero]
  dsimp only
  rw [endLocalStream_decode_one]
  simp only [checkSeq, List.replicate, UInt32.toNat_zero]
  rw [if_neg (by decide), checkDebugInfoLoop_of_ok hop, checkDebugInfoLoop_of_error hend,
    length_endLocalStream]

end Verifier

section Decoder

variable {d : DexTables} {code_item : CodeItem} {position_cb : Option (UInt32 → UInt32 → Bool)}
  {data : List UInt8} {stream : Nat} {st : DecodeState}

theorem decodeReg_eq_ok {v : UInt32} {p : Nat} (h : decodeUnsignedLeb128 data stream = some (v, p))
    (hv : v.toUInt16 ≤ code_item.registers_size_) :
    decodeReg code_item data stream = .ok (v.toUInt16, p) := by
  unfold decodeReg
  rw [h]
  dsimp only
  rw [if_neg (UInt16.not_lt.mpr hv)]

/-- `DBG_END_LOCAL` on a register the decoder lets through touches its entry. -/
theorem endLocal_touches {reg : UInt16} {p : Nat} (h : decodeReg code_item data stream = .ok (reg, p)) :
    ∃ st', endLocal code_item true data stream st = .next p st' ∧ reg.toNat ∈ st'.touched := by
  unfold endLocal
  rw [h]
  exact ⟨_, rfl, List.mem_cons_self ..⟩

theorem decodeOp_endLocalStream (reg : UInt16) :
    decodeOp d code_item position_cb true (endLocalStream reg) 2 st =
      endLocal code_item true (endLocalStream reg) 3 st := by
  unfold decodeOp
  rw [endLocalStream_two]
  simp [DBG_END_SEQUENCE, DBG_ADVANCE_PC, DBG_ADVANCE_LINE, DBG_START_LOCAL, DBG_START_LOCAL_EXTENDED,
    DBG_END_LOCAL]

/-- With a local callback, the stream `DBG_END_LOCAL registers_size_` makes the
    decoder touch `local_in_reg[registers_size_]`, whatever the method, as
    long as its prototype has no parameters. -/
theorem touches_endLocalStream (d : DexTables) (code_item : CodeItem) (is_static : Bool)
    (method_idx : UInt32) (position_cb : Option (UInt32 → UInt32 → Bool))
    (local_in_reg : Nat → LocalInfo)
    (hparams : (d.getProtoId (d.getMethodId method_idx.toNat).proto_idx_.toNat).parameters = []) :
    code_item.registers_size_.toNat ∈ (decodeDebugInfo0 d code_item is_static method_idx position_cb
      true (endLocalStream code_item.registers_size_) 0 local_in_reg).1.touched := by
  unfold decodeDebugInfo0
  rw [endLocalStream_decode_zero]
  dsimp only
  rw [endLocalStream_decode_one]
  dsimp only
  rw [hparams]
  simp only [decodeParameters, ne_eq, not_true_eq_false, if_false]
  -- the only opcode ends the local in `registers_size_`, which `reg > registers_size_` lets through
  have hreg : decodeReg code_item (endLocalStream code_item.registers_size_) 3 =
      .ok (code_item.registers_size_, 3 + (pushBackLoop code_item.registers_size_.toUInt32).length) := by
    have hle : code_item.registers_size_.toUInt32.toUInt16 ≤ code_item.registers_size_ := by
      rw [UInt16.toUInt16_toUInt32]
      exact UInt16.le_refl _
    have h : decodeReg code_item (endLocalStream code_item.registers_size_) 3 = _ :=
      decodeReg_eq_ok (endLocalStream_decode_reg _) hle
    rwa [UInt16.toUInt16_toUInt32] at h
  obtain ⟨st', hend, hmem⟩ := endLocal_touches hreg
  rw [decodeLoop_of_next (decodeOp_endLocalStream _ ▸ hend)]
  exact decodeLoop_touchedUpTo.mem hmem

end Decoder

/-- For every code item, the verifier accepts the stream that ends the local
    in register `registers_size_`, and the decoder, run with a local callback
    on a method without parameters, reads and writes
    `local_in_reg[registers_size_]`: one entry past the `registers_size_`
    that `DecodeDebugInfo` allocates. -/
theorem decodeDebugInfo0_touches_past_end (d : DexTables) (code_item : CodeItem) (is_static : Bool)
    (method_idx : UInt32) (position_cb : Option (UInt32 → UInt32 → Bool))
    (local_in_reg : Nat → LocalInfo) (string_ids_size : UInt32)
    (hparams : (d.getProtoId (d.getMethodId method_idx.toNat).proto_idx_.toNat).parameters = []) :
    checkIntraDebugInfoItem (endLocalStream code_item.registers_size_) string_ids_size 0 =
        some (some (endLocalStream code_item.registers_size_).length) ∧
      code_item.registers_size_.toNat ∈ (decodeDebugInfo0 d code_item is_static method_idx position_cb
        true (endLocalStream code_item.registers_size_) 0 local_in_reg).1.touched :=
  ⟨checkIntraDebugInfoItem_endLocalStream _ _,
    touches_endLocalStream d code_item is_static method_idx position_cb local_in_reg hparams⟩

/-- The class "LMain;" with one method, `main()V`. -/
def mainTables : DexTables where
  string_data := [[0x4C, 0x4D, 0x61, 0x69, 0x6E, 0x3B, 0], [0x56, 0], [0x6D, 0x61, 0x69, 0x6E, 0]]
  type_ids_ := [⟨0⟩, ⟨1⟩]
  proto_ids_ := [⟨1, 1, []⟩]
  field_ids_ := []
  method_ids_ := [⟨0, 0, 2⟩]

/-- A code item of one register and one instruction, with no try items. -/
def mainCodeItem : CodeItem :=
  ⟨1, 0, 0, 1, [], [], by decide⟩

theorem decodeDebugInfo0_touches_past_end_main :
    (mainTables.getProtoId (mainTables.getMethodId 0).proto_idx_.toNat).parameters = [] ∧
      checkIntraDebugInfoItem (endLocalStream 1) 0 0 = some (some (endLocalStream 1).length) ∧
      1 ∈ (decodeDebugInfo0 mainTables mainCodeItem true 0 none true (endLocalStream 1) 0
        (fun _ => {})).1.touched :=
  ⟨rfl, decodeDebugInfo0_touches_past_end mainTables mainCodeItem true 0 none (fun _ => {}) 0 rfl⟩

end DexFile

end ArtRuntime
