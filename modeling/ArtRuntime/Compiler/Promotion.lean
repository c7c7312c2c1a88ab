import ArtRuntime.Compiler.VmapTable

/-!
# Register Promotion

`Mir2Lir::DoPromotion` chooses, once for the whole method, the Dalvik
registers that live in callee-save registers, and makes the calls the vmap
table is written from. It first lets the target spill `lr`
(`AdjustSpillMask`), then walks the registers sorted by use count: for each
one still above the threshold and not yet promoted to an fp register it asks
`AllocPreservedFPReg` for a single, or for a pair of singles when the
register starts a double; then the same for core registers with
`AllocPreservedCoreReg`. A register is handed out only while it is neither a
temp nor in use, and the promotion marks it in use; a Dalvik register is
promoted only while `promotion_map_` does not yet place it in a physical
register, and the promotion places it there.

So the calls `DoPromotion` makes have the properties the vmap table needs
(`Mir2Lir.lookups_of_promotions`): callee-save registers, each used once,
and each Dalvik register promoted at most once in each class. The invariant
`PromotionInv` relates the allocator's state to the calls made so far, and
every allocation keeps it. The stack walker then finds every Dalvik register
where `promotion_map_` says the compiled code keeps it
(`vmapTable_lookups`).

The count arrays enter as lists in the order the sort leaves them: the
model holds for any order and any counts. Their entries are the Dalvik
registers, each its own SSA name and `promotion_map_` index.

## Main definitions

* `RegisterInfo`, `RegLocationType`, `PromotionMap`, `RefCounts`: The
  allocator's records.
* `RegAlloc`, `RegAlloc.compilerInitializeRegAlloc`: The state promotion
  works on, as `CompilerInitializeRegAlloc` sets it up.
* `RegAlloc.allocPreservedCoreReg`, `allocPreservedSingle`,
  `allocPreservedDouble`, `allocPreservedFPReg`: The allocations.
* `RegAlloc.doPromotion`: `DoPromotion`.
* `PromotionInv`: The allocator's state and the calls made so far.

## Theorems

* `PromotionInv.recordCorePromotion`, `PromotionInv.recordFpPromotion`: A
  promotion of a free register keeps the invariant.
* `good_allocPreservedFPReg`, `good_allocPreservedCoreReg`: So does each
  allocation, failed or not.
* `good_doPromotion`: So does `DoPromotion`.
* `vmapTable_lookups`: The vmap table after `DoPromotion` finds every
  promoted Dalvik register in the register `promotion_map_` names, and no
  other.
-/

namespace ArtRuntime

/-- `RegisterInfo`, the fields promotion reads: the register, `is_temp` and
    `in_use`. -/
structure RegisterInfo where
  reg : Nat
  is_temp : Bool
  in_use : Bool
  deriving DecidableEq

/-- `RegLocationType`. -/
inductive RegLocationType
  | kLocDalvikFrame | kLocPhysReg | kLocCompilerTemp | kLocInvalid
  deriving DecidableEq

/-- `PromotionMap`: where a Dalvik register lives, in a core register and in
    an fp register. -/
structure PromotionMap where
  core_location : RegLocationType
  core_reg : Nat
  fp_location : RegLocationType
  FpReg : Nat

/-- `RefCounts`: an entry of the count arrays `DoPromotion` sorts. -/
structure RefCounts where
  count : Int
  s_reg : Nat
  double_start : Bool

/-- `Mir2Lir::CompilerInitPool`: the registers, none a temp or in use. -/
def compilerInitPool (reg_nums : List Nat) : List RegisterInfo :=
  reg_nums.map fun reg => ⟨reg, false, false⟩

/-- `Mir2Lir::MarkInUse`, in the pool that holds the register. -/
def markInUse (regs : List RegisterInfo) (reg : Nat) : List RegisterInfo :=
  regs.map fun ri => if ri.reg = reg then { ri with in_use := true } else ri

/-- `Mir2Lir::MarkTemp`, in the pool that holds the register. -/
def markTemp (regs : List RegisterInfo) (reg : Nat) : List RegisterInfo :=
  regs.map fun ri => if ri.reg = reg then { ri with is_temp := true } else ri

/-- What promotion works on: the two register pools, `promotion_map_`, and
    the fields of `Mir2Lir` the promotions write. -/
structure RegAlloc where
  core_regs : List RegisterInfo
  fp_regs : List RegisterInfo
  promotion_map : Nat → PromotionMap
  mir : Mir2Lir

/-- `promotion_threshold` of `DoPromotion`. -/
def promotion_threshold : Int := 1

namespace RegAlloc

/-- `ArmMir2Lir::CompilerInitializeRegAlloc`, with `promotion_map_` as the
    arena hands it out (zeroed: every location `kLocDalvikFrame`) and the
    fields of `Mir2Lir` as its constructor leaves them. The frame size is
    the one `ComputeFrameSize` sets after promotion; no promotion reads
    it. -/
def compilerInitializeRegAlloc (frame_size : Int) : RegAlloc :=
  let core_regs := compilerInitPool coreRegs
  let fp_regs := compilerInitPool fpRegs
  -- keep special registers from being allocated (`NO_SUSPEND` is 0)
  let core_regs := reservedRegs.foldl markInUse core_regs
  -- mark temp regs: all others not in use can be used for promotion
  let core_regs := coreTemps.foldl markTemp core_regs
  let fp_regs := fpTemps.foldl markTemp fp_regs
  ⟨core_regs, fp_regs, fun _ => ⟨.kLocDalvikFrame, 0, .kLocDalvikFrame, 0⟩, Mir2Lir.init frame_size⟩

/-- `Mir2Lir::RecordCorePromotion(reg, s_reg)`. -/
def recordCorePromotion (st : RegAlloc) (reg s_reg : Nat) : RegAlloc :=
  { st with
    core_regs := markInUse st.core_regs reg
    mir := st.mir.recordCorePromotion reg s_reg
    promotion_map := Function.update st.promotion_map s_reg
      { st.promotion_map s_reg with core_location := .kLocPhysReg, core_reg := reg } }

/-- `Mir2Lir::AllocPreservedCoreReg(s_reg)`: the first register of the pool
    neither a temp nor in use; none for `-1`. -/
def allocPreservedCoreReg (st : RegAlloc) (s_reg : Nat) : Option Nat × RegAlloc :=
  match st.core_regs.find? fun ri => !ri.is_temp && !ri.in_use with
  | some ri => (some ri.reg, st.recordCorePromotion ri.reg s_reg)
  | none => (none, st)

/-- `Mir2Lir::RecordFpPromotion(reg, s_reg)`. -/
def recordFpPromotion (st : RegAlloc) (reg s_reg : Nat) : RegAlloc :=
  { st with
    fp_regs := markInUse st.fp_regs reg
    mir := st.mir.markPreservedSingle s_reg reg
    promotion_map := Function.update st.promotion_map s_reg
      { st.promotion_map s_reg with fp_location := .kLocPhysReg, FpReg := reg } }

/-- `Mir2Lir::AllocPreservedSingle(s_reg, even)`: the first single of the
    pool of the parity asked for, neither a temp nor in use. -/
def allocPreservedSingle (st : RegAlloc) (s_reg : Nat) (even : Bool) : Option Nat × RegAlloc :=
  match st.fp_regs.find? fun ri => !ri.is_temp && !ri.in_use && ((ri.reg &&& 1 == 0) == even) with
  | some ri => (some ri.reg, st.recordFpPromotion ri.reg s_reg)
  | none => (none, st)

/-- The loop of `AllocPreservedDouble` over neighbouring entries of the
    pool: the first free even single followed by the free odd single after
    it. -/
def findPair : List RegisterInfo → Option Nat
  | lo :: hi :: rest =>
    if !lo.is_temp && !lo.in_use && lo.reg &&& 1 == 0 && !hi.is_temp && !hi.in_use &&
        hi.reg &&& 1 == 1 && lo.reg + 1 == hi.reg then some lo.reg
    else findPair (hi :: rest)
  | _ => none

/-- The `promotion_map_` entries of a double: `p_map_idx` in `res`, the next
    Dalvik register in `res + 1`. -/
def setDouble (pm : Nat → PromotionMap) (p_map_idx res : Nat) : Nat → PromotionMap :=
  let pm := Function.update pm p_map_idx
    { pm p_map_idx with fp_location := .kLocPhysReg, FpReg := res }
  Function.update pm (p_map_idx + 1)
    { pm (p_map_idx + 1) with fp_location := .kLocPhysReg, FpReg := res + 1 }

/-- `Mir2Lir::AllocPreservedDouble(s_reg)`. `GetRegInfo` indexes the fp pool
    by the register's number, so the single below an odd fp register is
    always found. -/
def allocPreservedDouble (st : RegAlloc) (s_reg : Nat) : Option Nat × RegAlloc :=
  let v_reg := s_reg
  let p_map_idx := s_reg
  if (st.promotion_map (p_map_idx + 1)).fp_location = .kLocPhysReg then
    -- upper reg is already allocated: can we fit?
    let high_reg := (st.promotion_map (p_map_idx + 1)).FpReg
    if high_reg &&& 1 = 0 then (none, st)
    else
      match st.fp_regs.find? (·.reg = high_reg - 1) with
      | some p =>
        if p.in_use || p.is_temp then (none, st)
        else
          let res := p.reg
          (some res, { st with
            fp_regs := markInUse st.fp_regs res
            mir := st.mir.markPreservedSingle v_reg res
            promotion_map := setDouble st.promotion_map p_map_idx res })
      | none => (none, st)
  else
    match findPair st.fp_regs with
    | some res =>
      (some res, { st with
        fp_regs := markInUse (markInUse st.fp_regs res) (res + 1)
        mir := (st.mir.markPreservedSingle v_reg res).markPreservedSingle (v_reg + 1) (res + 1)
        promotion_map := setDouble st.promotion_map p_map_idx res })
    | none => (none, st)

/-- `Mir2Lir::AllocPreservedFPReg(s_reg, double_start)`: a pair for a
    double's start, else an odd single, else an even one. -/
def allocPreservedFPReg (st : RegAlloc) (s_reg : Nat) (double_start : Bool) :
    Option Nat × RegAlloc :=
  let (res, st) := if double_start then st.allocPreservedDouble s_reg else (none, st)
  match res with
  | some res => (some res, st)
  | none =>
    match st.allocPreservedSingle s_reg false with
    | (some res, st) => (some res, st)
    | (none, st) => st.allocPreservedSingle s_reg true

/-- "Promote FpRegs": the fp counts in sorted order, while they reach the
    threshold and registers are left. -/
def promoteFpRegs (st : RegAlloc) : List RefCounts → RegAlloc
  | [] => st
  | c :: counts =>
    if c.count ≥ promotion_threshold then
      if (st.promotion_map c.s_reg).fp_location ≠ .kLocPhysReg then
        match st.allocPreservedFPReg c.s_reg c.double_start with
        | (some _, st) => promoteFpRegs st counts
        | (none, st) => st
      else promoteFpRegs st counts
    else st

/-- "Promote core regs": the core counts in sorted order, while they reach
    the threshold and registers are left. -/
def promoteCoreRegs (st : RegAlloc) : List RefCounts → RegAlloc
  | [] => st
  | c :: counts =>
    if c.count ≥ promotion_threshold then
      if (st.promotion_map c.s_reg).core_location ≠ .kLocPhysReg then
        match st.allocPreservedCoreReg c.s_reg with
        | (some _, st) => promoteCoreRegs st counts
        | (none, st) => st
      else promoteCoreRegs st counts
    else st

/-- `Mir2Lir::DoPromotion` over the sorted count arrays; `promote_regs` is
    `!(cu_->disable_opt & (1 << kPromoteRegs))`. -/
def doPromotion (st : RegAlloc) (fp_counts core_counts : List RefCounts) (promote_regs : Bool) :
    RegAlloc :=
  -- allow target code to add any special registers
  let st := { st with mir := st.mir.adjustSpillMask }
  if promote_regs then promoteCoreRegs (promoteFpRegs st fp_counts) core_counts else st

end RegAlloc

/-! ### The pools -/

/-- A register free after `MarkInUse` was free before, and is not the one
    marked. -/
theorem free_of_mem_markInUse {regs : List RegisterInfo} {reg : Nat} {ri : RegisterInfo}
    (h : ri ∈ markInUse regs reg) (hfree : ri.in_use = false) : ri ∈ regs ∧ ri.reg ≠ reg := by
  obtain ⟨ri₀, hri₀, hdef⟩ := List.mem_map.1 h
  by_cases hr : ri₀.reg = reg
  · rw [if_pos hr] at hdef
    subst hdef
    cases hfree
  · rw [if_neg hr] at hdef
    subst hdef
    exact ⟨hri₀, hr⟩

/-- `MarkInUse` of another register leaves a pool entry where it was. -/
theorem mem_markInUse_of_ne {regs : List RegisterInfo} {reg : Nat} {ri : RegisterInfo}
    (h : ri ∈ regs) (hne : ri.reg ≠ reg) : ri ∈ markInUse regs reg := by
  refine List.mem_map.2 ⟨ri, h, ?_⟩
  rw [if_neg hne]

/-- After `MarkInUse`, every entry for the register marked, and for one all
    of whose entries were in use, is in use. -/
theorem markInUse_in_use {regs : List RegisterInfo} {reg r : Nat}
    (h : r = reg ∨ ∀ ri ∈ regs, ri.reg = r → ri.in_use = true) :
    ∀ ri ∈ markInUse regs reg, ri.reg = r → ri.in_use = true := by
  intro ri hri heq
  subst heq
  by_contra hnot
  obtain ⟨hold, hne⟩ := free_of_mem_markInUse hri (by simpa using hnot)
  rcases h with heq | hall
  · exact hne heq
  · exact hnot (hall ri hold rfl)

/-- A map updated at a key that had no entry holds the entries it held
    before and the new one. -/
theorem entry_update_iff {β γ : Type*} {map : Nat → β} {v : Nat} {e : β} {P : β → γ → Prop} {new : γ}
    (hfresh : ∀ r, ¬ P (map v) r) (hnew : ∀ r, P e r ↔ r = new) (w : Nat) (r : γ) :
    (P (map w) r ∨ (w = v ∧ r = new)) ↔ P (Function.update map v e w) r := by
  by_cases hw : w = v
  · subst hw
    simp only [Function.update_self, hnew, true_and]
    exact or_iff_right (hfresh r)
  · simp only [Function.update_of_ne hw, hw, false_and, or_false]

/-- `findPair` returns an even free single whose odd neighbour is free. -/
theorem findPair_spec {regs : List RegisterInfo} {res : Nat} (h : RegAlloc.findPair regs = some res) :
    ∃ lo ∈ regs, ∃ hi ∈ regs, lo.reg = res ∧ hi.reg = res + 1 ∧
      lo.is_temp = false ∧ lo.in_use = false ∧ hi.is_temp = false ∧ hi.in_use = false := by
  induction regs with
  | nil => cases h
  | cons lo rest ih =>
    match rest, ih with
    | [], _ => cases h
    | hi :: rest, ih =>
      rw [RegAlloc.findPair] at h
      split at h
      · -- the pair at the front
        rename_i hpair
        simp only [Bool.and_eq_true, Bool.not_eq_true', beq_iff_eq] at hpair
        obtain ⟨⟨⟨⟨⟨⟨hlt, hlu⟩, -⟩, hht⟩, hhu⟩, -⟩, hnext⟩ := hpair
        cases h
        exact ⟨lo, List.mem_cons_self, hi, List.mem_cons_of_mem _ List.mem_cons_self, rfl,
          hnext.symm, hlt, hlu, hht, hhu⟩
      · obtain ⟨lo', hlo', hi', hhi', h1, h2, h3, h4, h5, h6⟩ := ih h
        exact ⟨lo', List.mem_cons_of_mem _ hlo', hi', List.mem_cons_of_mem _ hhi', h1, h2, h3, h4,
          h5, h6⟩

/-! ### The invariant -/

/-- The allocator's state after the promotion calls `ops`, from the fields
    `m₀`, for Dalvik registers below `bound`: the fields are the calls' result;
    a register neither a temp nor in use is callee-save; every register a
    call promoted to is callee-save and in use, and its Dalvik register is
    below `bound`; no register is promoted to twice; and `promotion_map_`
    places a Dalvik register in a register exactly when a call promoted it
    there. -/
structure PromotionInv (m₀ : Mir2Lir) (bound : Nat) (st : RegAlloc) (ops : List PromotionOp) :
    Prop where
  mir_eq : st.mir = m₀.runPromotions ops
  core_free : ∀ ri ∈ st.core_regs, ri.is_temp = false → ri.in_use = false →
    isCalleeSaveCore ri.reg = true
  fp_free : ∀ ri ∈ st.fp_regs, ri.is_temp = false → ri.in_use = false →
    isCalleeSaveSingle ri.reg = true
  core_used : ∀ p ∈ corePromotions ops, isCalleeSaveCore p.1 = true ∧ p.2 < bound ∧
    ∀ ri ∈ st.core_regs, ri.reg = p.1 → ri.in_use = true
  fp_used : ∀ p ∈ fpPromotions ops, isCalleeSaveSingle p.2 = true ∧ p.1 < bound ∧
    ∀ ri ∈ st.fp_regs, ri.reg = p.2 → ri.in_use = true
  core_nodup : ((corePromotions ops).map Prod.fst).Nodup
  fp_nodup : ((fpPromotions ops).map Prod.snd).Nodup
  core_map : ∀ r v, (r, v) ∈ corePromotions ops ↔
    (st.promotion_map v).core_location = .kLocPhysReg ∧ (st.promotion_map v).core_reg = r
  fp_map : ∀ v reg, (v, reg) ∈ fpPromotions ops ↔
    (st.promotion_map v).fp_location = .kLocPhysReg ∧ (st.promotion_map v).FpReg = reg

namespace PromotionInv

variable {m₀ : Mir2Lir} {bound : Nat} {st : RegAlloc} {ops : List PromotionOp}

/-- `AdjustSpillMask` changes only the core mask. -/
theorem adjustSpillMask (h : PromotionInv m₀ bound st ops) :
    PromotionInv m₀ bound { st with mir := st.mir.adjustSpillMask } (ops ++ [.adjustSpillMask]) := by
  have hcore : corePromotions (ops ++ [.adjustSpillMask]) = corePromotions ops := by
    rw [Mir2Lir.corePromotions_append]
    simp [corePromotions]
  have hfp : fpPromotions (ops ++ [.adjustSpillMask]) = fpPromotions ops := by
    rw [Mir2Lir.fpPromotions_append]
    simp [fpPromotions]
  refine ⟨?_, h.core_free, h.fp_free, ?_, ?_, ?_, ?_, ?_, ?_⟩
  · rw [Mir2Lir.runPromotions_append, ← h.mir_eq]
    rfl
  all_goals first
    | (rw [hcore]; first | exact h.core_used | exact h.core_nodup | exact h.core_map)
    | (rw [hfp]; first | exact h.fp_used | exact h.fp_nodup | exact h.fp_map)

/-- Promoting `v` to a free callee-save core register keeps the invariant. -/
theorem recordCorePromotion (h : PromotionInv m₀ bound st ops) {ri : RegisterInfo}
    (hri : ri ∈ st.core_regs) (htemp : ri.is_temp = false) (huse : ri.in_use = false) {v : Nat}
    (hv : v < bound) (hloc : (st.promotion_map v).core_location ≠ .kLocPhysReg) :
    PromotionInv m₀ bound (st.recordCorePromotion ri.reg v)
      (ops ++ [.recordCorePromotion ri.reg v]) := by
  have hcore : corePromotions (ops ++ [.recordCorePromotion ri.reg v]) =
      corePromotions ops ++ [(ri.reg, v)] := by
    rw [Mir2Lir.corePromotions_append]
    rfl
  have hfp : fpPromotions (ops ++ [.recordCorePromotion ri.reg v]) = fpPromotions ops := by
    rw [Mir2Lir.fpPromotions_append]
    simp [fpPromotions]
  -- the register was free, so no earlier call promoted to it
  have hfresh : ∀ p ∈ corePromotions ops, p.1 ≠ ri.reg := by
    intro p hp heq
    have := (h.core_used p hp).2.2 ri hri heq.symm
    rw [huse] at this
    cases this
  have hcallee := h.core_free ri hri htemp huse
  refine ⟨?_, ?_, h.fp_free, ?_, ?_, ?_, ?_, ?_, ?_⟩
  · rw [Mir2Lir.runPromotions_append, ← h.mir_eq]
    rfl
  · intro ri' hri' htemp' huse'
    exact h.core_free ri' (free_of_mem_markInUse hri' huse').1 htemp' huse'
  · -- a register in use stays in use, and the new one is marked
    rw [hcore]
    intro p hp
    rcases List.mem_append.1 hp with hp | hp
    · obtain ⟨hc, hb, hin⟩ := h.core_used p hp
      exact ⟨hc, hb, markInUse_in_use (.inr hin)⟩
    · rw [List.mem_singleton] at hp
      subst hp
      exact ⟨hcallee, hv, markInUse_in_use (.inl rfl)⟩
  · exact fun p hp => by rw [hfp] at hp; exact h.fp_used p hp
  · rw [hcore, List.map_append, List.map_singleton, ← List.concat_eq_append]
    refine h.core_nodup.concat fun hmem => ?_
    obtain ⟨p, hp, heq⟩ := List.mem_map.1 hmem
    exact hfresh p hp heq
  · rw [hfp]
    exact h.fp_nodup
  · -- `v` had no core register, so the update adds exactly its entry
    intro r w
    rw [hcore, List.mem_append, List.mem_singleton, h.core_map r w, Prod.mk.injEq, and_comm (a := r = ri.reg)]
    refine entry_update_iff (P := fun (pm : PromotionMap) r => pm.core_location = .kLocPhysReg ∧ pm.core_reg = r)
      (fun _ hp => hloc hp.1) (fun _ => ?_) w r
    exact ⟨fun hp => hp.2.symm, fun hp => ⟨rfl, hp.symm⟩⟩
  · intro w reg
    rw [hfp, h.fp_map w reg]
    simp only [RegAlloc.recordCorePromotion, Function.update_apply]
    split <;> simp_all

/-- Promoting `v` to a free callee-save single keeps the invariant. -/
theorem recordFpPromotion (h : PromotionInv m₀ bound st ops) {ri : RegisterInfo}
    (hri : ri ∈ st.fp_regs) (htemp : ri.is_temp = false) (huse : ri.in_use = false) {v : Nat}
    (hv : v < bound) (hloc : (st.promotion_map v).fp_location ≠ .kLocPhysReg) :
    PromotionInv m₀ bound (st.recordFpPromotion ri.reg v)
      (ops ++ [.markPreservedSingle v ri.reg]) := by
  have hcore : corePromotions (ops ++ [.markPreservedSingle v ri.reg]) = corePromotions ops := by
    rw [Mir2Lir.corePromotions_append]
    simp [corePromotions]
  have hfp : fpPromotions (ops ++ [.markPreservedSingle v ri.reg]) =
      fpPromotions ops ++ [(v, ri.reg)] := by
    rw [Mir2Lir.fpPromotions_append]
    rfl
  -- the single was free, so no earlier call promoted to it
  have hfresh : ∀ p ∈ fpPromotions ops, p.2 ≠ ri.reg := by
    intro p hp heq
    have := (h.fp_used p hp).2.2 ri hri heq.symm
    rw [huse] at this
    cases this
  have hcallee := h.fp_free ri hri htemp huse
  refine ⟨?_, h.core_free, ?_, ?_, ?_, ?_, ?_, ?_, ?_⟩
  · rw [Mir2Lir.runPromotions_append, ← h.mir_eq]
    rfl
  · intro ri' hri' htemp' huse'
    exact h.fp_free ri' (free_of_mem_markInUse hri' huse').1 htemp' huse'
  · exact fun p hp => by rw [hcore] at hp; exact h.core_used p hp
  · rw [hfp]
    intro p hp
    rcases List.mem_append.1 hp with hp | hp
    · obtain ⟨hc, hb, hin⟩ := h.fp_used p hp
      exact ⟨hc, hb, markInUse_in_use (.inr hin)⟩
    · rw [List.mem_singleton] at hp
      subst hp
      exact ⟨hcallee, hv, markInUse_in_use (.inl rfl)⟩
  · rw [hcore]
    exact h.core_nodup
  · rw [hfp, List.map_append, List.map_singleton, ← List.concat_eq_append]
    refine h.fp_nodup.concat fun hmem => ?_
    obtain ⟨p, hp, heq⟩ := List.mem_map.1 hmem
    exact hfresh p hp heq
  · intro r w
    rw [hcore, h.core_map r w]
    simp only [RegAlloc.recordFpPromotion, Function.update_apply]
    split <;> simp_all
  · intro w reg
    rw [hfp, List.mem_append, List.mem_singleton, h.fp_map w reg, Prod.mk.injEq]
    refine entry_update_iff (P := fun (pm : PromotionMap) reg => pm.fp_location = .kLocPhysReg ∧ pm.FpReg = reg)
      (fun _ hp => hloc hp.1) (fun _ => ?_) w reg
    exact ⟨fun hp => hp.2.symm, fun hp => ⟨rfl, hp.symm⟩⟩

/-- Each Dalvik register is promoted to one core register, which is
    promoted to once: no Dalvik register has two core entries. -/
theorem core_vregs_nodup (h : PromotionInv m₀ bound st ops) :
    ((corePromotions ops).map Prod.snd).Nodup := by
  refine (List.Nodup.of_map Prod.fst h.core_nodup).map_on fun p hp q hq heq => ?_
  have hp' := (h.core_map p.1 p.2).1 hp
  have hq' := (h.core_map q.1 q.2).1 hq
  rw [heq] at hp'
  exact Prod.ext (hp'.2.symm.trans hq'.2) heq

/-- Each Dalvik register is promoted to one single, which is promoted to
    once: no Dalvik register has two fp entries. -/
theorem fp_vregs_nodup (h : PromotionInv m₀ bound st ops) :
    ((fpPromotions ops).map Prod.fst).Nodup := by
  refine (List.Nodup.of_map Prod.snd h.fp_nodup).map_on fun p hp q hq heq => ?_
  have hp' := (h.fp_map p.1 p.2).1 hp
  have hq' := (h.fp_map q.1 q.2).1 hq
  rw [heq] at hp'
  exact Prod.ext heq (hp'.2.symm.trans hq'.2)

end PromotionInv

/-- The pools `CompilerInitializeRegAlloc` sets up, and no call yet. -/
theorem PromotionInv.initial (frame_size : Int) (bound : Nat) :
    PromotionInv (Mir2Lir.init frame_size) bound
      (RegAlloc.compilerInitializeRegAlloc frame_size) [] where
  mir_eq := rfl
  -- the pools do not depend on the frame size, and their free registers are callee-save
  core_free := by
    change ∀ ri ∈ (RegAlloc.compilerInitializeRegAlloc 0).core_regs, _
    decide
  fp_free := by
    change ∀ ri ∈ (RegAlloc.compilerInitializeRegAlloc 0).fp_regs, _
    decide
  core_used _ h := absurd h List.not_mem_nil
  fp_used _ h := absurd h List.not_mem_nil
  core_nodup := List.nodup_nil
  fp_nodup := List.nodup_nil
  core_map _ _ := by simp [corePromotions, RegAlloc.compilerInitializeRegAlloc]
  fp_map _ _ := by simp [fpPromotions, RegAlloc.compilerInitializeRegAlloc]

/-! ### The allocations -/

section Allocations

variable {m₀ : Mir2Lir} {bound : Nat} {st : RegAlloc}

/-- The entries of a double whose upper single is already in place: only
    the lower one changes. -/
theorem setDouble_of_high {pm : Nat → PromotionMap} {v res : Nat}
    (hloc : (pm (v + 1)).fp_location = .kLocPhysReg) (hreg : (pm (v + 1)).FpReg = res + 1) :
    RegAlloc.setDouble pm v res =
      Function.update pm v { pm v with fp_location := .kLocPhysReg, FpReg := res } := by
  funext w
  simp only [RegAlloc.setDouble, Function.update_apply]
  by_cases hw : w = v + 1
  · subst hw
    rw [if_pos rfl, if_neg (by omega)]
    cases hp : pm (v + 1)
    rw [hp] at hloc hreg
    simp only at hloc hreg
    rw [hloc, hreg]
  · rw [if_neg hw]

theorem good_allocPreservedCoreReg (hg : ∃ ops, PromotionInv m₀ bound st ops) {v : Nat}
    (hv : v < bound) (hloc : (st.promotion_map v).core_location ≠ .kLocPhysReg) :
    ∃ ops, PromotionInv m₀ bound (st.allocPreservedCoreReg v).2 ops := by
  obtain ⟨ops, h⟩ := hg
  unfold RegAlloc.allocPreservedCoreReg
  split
  · rename_i ri hfind
    have hfree := List.find?_some hfind
    simp only [Bool.and_eq_true, Bool.not_eq_true'] at hfree
    exact ⟨_, h.recordCorePromotion (List.mem_of_find?_eq_some hfind) hfree.1 hfree.2 hv hloc⟩
  · exact ⟨ops, h⟩

theorem good_allocPreservedSingle (hg : ∃ ops, PromotionInv m₀ bound st ops) {v : Nat}
    (hv : v < bound) (hloc : (st.promotion_map v).fp_location ≠ .kLocPhysReg) (even : Bool) :
    ∃ ops, PromotionInv m₀ bound (st.allocPreservedSingle v even).2 ops := by
  obtain ⟨ops, h⟩ := hg
  unfold RegAlloc.allocPreservedSingle
  split
  · rename_i ri hfind
    have hfree := List.find?_some hfind
    simp only [Bool.and_eq_true, Bool.not_eq_true'] at hfree
    exact ⟨_, h.recordFpPromotion (List.mem_of_find?_eq_some hfind) hfree.1.1 hfree.1.2 hv hloc⟩
  · exact ⟨ops, h⟩

/-- A single that fails leaves the state as it was. -/
theorem allocPreservedSingle_of_none {v : Nat} {even : Bool}
    (h : (st.allocPreservedSingle v even).1 = none) : (st.allocPreservedSingle v even).2 = st := by
  revert h
  unfold RegAlloc.allocPreservedSingle
  split
  · intro h
    cases h
  · intro _
    rfl

/-- A double that fails leaves the state as it was. -/
theorem allocPreservedDouble_of_none {v : Nat} (h : (st.allocPreservedDouble v).1 = none) :
    (st.allocPreservedDouble v).2 = st := by
  revert h
  unfold RegAlloc.allocPreservedDouble
  dsimp only
  split
  · split
    · exact fun _ => rfl
    · split
      · split
        · exact fun _ => rfl
        · intro h
          cases h
      · exact fun _ => rfl
  · split
    · intro h
      cases h
    · exact fun _ => rfl

theorem good_allocPreservedDouble (hg : ∃ ops, PromotionInv m₀ bound st ops) {v : Nat}
    (hv : v < bound) (hv1 : v + 1 < bound)
    (hloc : (st.promotion_map v).fp_location ≠ .kLocPhysReg) :
    ∃ ops, PromotionInv m₀ bound (st.allocPreservedDouble v).2 ops := by
  obtain ⟨ops, h⟩ := hg
  unfold RegAlloc.allocPreservedDouble
  dsimp only
  split
  · -- the upper single is in place: the lower one is a single promotion of `v`
    rename_i hhigh
    split
    · exact ⟨ops, h⟩
    · rename_i hodd
      split
      · rename_i p hfind
        split
        · exact ⟨ops, h⟩
        · rename_i hfree
          simp only [Bool.or_eq_true, not_or, Bool.not_eq_true] at hfree
          have hreg : p.reg = (st.promotion_map (v + 1)).FpReg - 1 := by
            simpa using List.find?_some hfind
          have hodd' : (st.promotion_map (v + 1)).FpReg ≠ 0 := by
            intro h0
            rw [h0] at hodd
            exact hodd rfl
          rw [setDouble_of_high hhigh (by omega)]
          exact ⟨_, h.recordFpPromotion (List.mem_of_find?_eq_some hfind) hfree.2 hfree.1 hv hloc⟩
      · exact ⟨ops, h⟩
  · -- a free pair: two single promotions, of `v` and of `v + 1`
    rename_i hnot
    split
    · rename_i res hpair
      obtain ⟨lo, hlo, hi, hhi, hlo_reg, hhi_reg, hlt, hlu, hht, hhu⟩ := findPair_spec hpair
      have h₁ := h.recordFpPromotion hlo hlt hlu hv hloc
      have hhi' : hi ∈ (st.recordFpPromotion lo.reg v).fp_regs := mem_markInUse_of_ne hhi (by omega)
      have hloc₁ : ((st.recordFpPromotion lo.reg v).promotion_map (v + 1)).fp_location ≠
          .kLocPhysReg := by
        simp only [RegAlloc.recordFpPromotion]
        rw [Function.update_of_ne (by omega)]
        exact hnot
      have h₂ := h₁.recordFpPromotion hhi' hht hhu hv1 hloc₁
      rw [hlo_reg, hhi_reg] at h₂
      exact ⟨_, h₂⟩
    · exact ⟨ops, h⟩

/-- The singles `AllocPreservedFPReg` tries: odd, then even. -/
theorem good_allocPreservedSingles (hg : ∃ ops, PromotionInv m₀ bound st ops) {v : Nat}
    (hv : v < bound) (hloc : (st.promotion_map v).fp_location ≠ .kLocPhysReg) :
    ∃ ops, PromotionInv m₀ bound (match st.allocPreservedSingle v false with
      | (some res, st) => (some res, st)
      | (none, st) => st.allocPreservedSingle v true).2 ops := by
  rcases hodd : st.allocPreservedSingle v false with ⟨_ | res, st'⟩
  · -- no odd single: the state is as it was
    have hsame : st' = st := by
      have := @allocPreservedSingle_of_none st v false (by rw [hodd])
      rwa [hodd] at this
    subst hsame
    exact good_allocPreservedSingle hg hv hloc true
  · have := good_allocPreservedSingle hg hv hloc false
    rwa [hodd] at this

theorem good_allocPreservedFPReg (hg : ∃ ops, PromotionInv m₀ bound st ops) {v : Nat}
    {double_start : Bool} (hv : v < bound) (hv1 : double_start = true → v + 1 < bound)
    (hloc : (st.promotion_map v).fp_location ≠ .kLocPhysReg) :
    ∃ ops, PromotionInv m₀ bound (st.allocPreservedFPReg v double_start).2 ops := by
  unfold RegAlloc.allocPreservedFPReg
  cases double_start with
  | false => exact good_allocPreservedSingles hg hv hloc
  | true =>
    rcases hd : st.allocPreservedDouble v with ⟨_ | res, st'⟩
    · -- no pair: the state is as it was, and the singles are tried
      have hsame : st' = st := by
        have := @allocPreservedDouble_of_none st v (by rw [hd])
        rwa [hd] at this
      subst hsame
      exact good_allocPreservedSingles hg hv hloc
    · have := good_allocPreservedDouble hg hv (hv1 rfl) hloc
      rwa [hd] at this

end Allocations

/-! ### `DoPromotion` -/

section Loops

variable {m₀ : Mir2Lir} {bound : Nat}

theorem good_promoteFpRegs {counts : List RefCounts}
    (hb : ∀ c ∈ counts, c.s_reg < bound ∧ (c.double_start = true → c.s_reg + 1 < bound)) :
    ∀ {st : RegAlloc}, (∃ ops, PromotionInv m₀ bound st ops) →
      ∃ ops, PromotionInv m₀ bound (st.promoteFpRegs counts) ops := by
  induction counts with
  | nil => exact fun hg => hg
  | cons c counts ih =>
    intro st hg
    have hc := hb c List.mem_cons_self
    have ih' := @ih fun c' hc' => hb c' (List.mem_cons_of_mem c hc')
    rw [RegAlloc.promoteFpRegs]
    split
    · split
      · -- a Dalvik register not yet in a single: allocate, and go on while it succeeds
        rename_i hloc
        have hg' := good_allocPreservedFPReg hg hc.1 hc.2 hloc
        split
        · rename_i st' heq
          rw [heq] at hg'
          exact ih' hg'
        · rename_i st' heq
          rw [heq] at hg'
          exact hg'
      · exact ih' hg
    · exact hg

theorem good_promoteCoreRegs {counts : List RefCounts} (hb : ∀ c ∈ counts, c.s_reg < bound) :
    ∀ {st : RegAlloc}, (∃ ops, PromotionInv m₀ bound st ops) →
      ∃ ops, PromotionInv m₀ bound (st.promoteCoreRegs counts) ops := by
  induction counts with
  | nil => exact fun hg => hg
  | cons c counts ih =>
    intro st hg
    have ih' := @ih fun c' hc' => hb c' (List.mem_cons_of_mem c hc')
    rw [RegAlloc.promoteCoreRegs]
    split
    · split
      · rename_i hloc
        have hg' := good_allocPreservedCoreReg hg (hb c List.mem_cons_self) hloc
        split
        · rename_i st' heq
          rw [heq] at hg'
          exact ih' hg'
        · rename_i st' heq
          rw [heq] at hg'
          exact hg'
      · exact ih' hg
    · exact hg

/-- `DoPromotion` over counts of Dalvik registers below `bound`, a double's
    start with its second register too, keeps the invariant. -/
theorem good_doPromotion {st : RegAlloc} (hg : ∃ ops, PromotionInv m₀ bound st ops)
    {fp_counts core_counts : List RefCounts}
    (hfp : ∀ c ∈ fp_counts, c.s_reg < bound ∧ (c.double_start = true → c.s_reg + 1 < bound))
    (hcore : ∀ c ∈ core_counts, c.s_reg < bound) (promote_regs : Bool) :
    ∃ ops, PromotionInv m₀ bound (st.doPromotion fp_counts core_counts promote_regs) ops := by
  obtain ⟨ops, h⟩ := hg
  have hadjust : ∃ ops, PromotionInv m₀ bound { st with mir := st.mir.adjustSpillMask } ops :=
    ⟨_, h.adjustSpillMask⟩
  unfold RegAlloc.doPromotion
  split
  · exact good_promoteCoreRegs hcore (good_promoteFpRegs hfp hadjust)
  · exact hadjust

end Loops

/-! ### The lookups after `DoPromotion` -/

namespace Mir2Lir

/-- The vmap table `GetCompiledMethod` writes after `DoPromotion`, for a
    method with a frame and at most `65535` Dalvik registers, whatever the
    counts and their order: every Dalvik register `promotion_map_` places in
    a core register is in a callee-save one, is found for a kind that is not
    a float and is mapped back to that register through `core_spill_mask_`;
    every one it places in a single is in a callee-save one, is found for a
    float kind and is mapped back to that single (`s16` on, the register
    number less `ARM_FP_REG_OFFSET`) through `fp_spill_mask_`; and no other
    Dalvik register is found. -/
theorem vmapTable_lookups (frame_size : Int) (hframe : 0 < frame_size) (num_dalvik_registers : Nat)
    (hregs : num_dalvik_registers ≤ 65535) (fp_counts core_counts : List RefCounts)
    (promote_regs : Bool)
    (hfp : ∀ c ∈ fp_counts, c.s_reg < num_dalvik_registers ∧
      (c.double_start = true → c.s_reg + 1 < num_dalvik_registers))
    (hcore : ∀ c ∈ core_counts, c.s_reg < num_dalvik_registers) :
    let st := (RegAlloc.compilerInitializeRegAlloc frame_size).doPromotion fp_counts core_counts
      promote_regs
    let m := st.mir.getCompiledMethod
    let t : VmapTable := ⟨m.vmap_table⟩
    (∀ v, (st.promotion_map v).core_location = .kLocPhysReg →
      isCalleeSaveCore (st.promotion_map v).core_reg = true ∧
      ∀ kind : VRegKind, kind.isFloat = false → ∃ off, t.isInContext v kind = some (true, off) ∧
        t.computeRegister m.core_spill_mask off kind = some (st.promotion_map v).core_reg) ∧
    (∀ v, (st.promotion_map v).fp_location = .kLocPhysReg →
      isCalleeSaveSingle (st.promotion_map v).FpReg = true ∧
      ∀ kind : VRegKind, kind.isFloat = true → ∃ off, t.isInContext v kind = some (true, off) ∧
        t.computeRegister m.fp_spill_mask off kind =
          some ((st.promotion_map v).FpReg - ARM_FP_REG_OFFSET)) ∧
    (∀ v < INVALID_VREG, ∀ kind : VRegKind,
      (kind.isFloat = false → (st.promotion_map v).core_location ≠ .kLocPhysReg →
        t.isInContext v kind = some (false, 0xEBAD0FF5)) ∧
      (kind.isFloat = true → (st.promotion_map v).fp_location ≠ .kLocPhysReg →
        t.isInContext v kind = some (false, 0xEBAD0FF5))) := by
  intro st m t
  obtain ⟨ops, h⟩ := good_doPromotion ⟨[], PromotionInv.initial frame_size num_dalvik_registers⟩
    hfp hcore promote_regs
  -- the calls promote to callee-save registers, once each, Dalvik registers below `0xffff`
  have hbound : num_dalvik_registers ≤ INVALID_VREG := hregs
  have hlook := lookups_of_promotions frame_size hframe ops
    (fun p hp => ⟨(h.core_used p hp).1, by have := (h.core_used p hp).2.1; omega⟩) h.core_nodup
    h.core_vregs_nodup (fun p hp => ⟨(h.fp_used p hp).1, by have := (h.fp_used p hp).2.1; omega⟩)
    h.fp_nodup h.fp_vregs_nodup
  rw [← h.mir_eq] at hlook
  obtain ⟨hc, hf, hother⟩ := hlook
  refine ⟨fun v hv => ?_, fun v hv => ?_, fun v hv kind => ⟨fun hkind hnot => ?_, fun hkind hnot => ?_⟩⟩
  · have hp := (h.core_map _ v).2 ⟨hv, rfl⟩
    exact ⟨(h.core_used _ hp).1, fun kind hkind => hc _ _ hp kind hkind⟩
  · have hp := (h.fp_map v _).2 ⟨hv, rfl⟩
    exact ⟨(h.fp_used _ hp).1, fun kind hkind => hf _ _ hp kind hkind⟩
  · -- not placed in a core register: no core call promoted it
    refine (hother v hv kind).1 hkind fun hmem => ?_
    obtain ⟨⟨r, w⟩, hp, rfl⟩ := List.mem_map.1 hmem
    exact hnot ((h.core_map r w).1 hp).1
  · refine (hother v hv kind).2 hkind fun hmem => ?_
    obtain ⟨⟨w, reg⟩, hp, rfl⟩ := List.mem_map.1 hmem
    exact hnot ((h.fp_map w reg).1 hp).1

/-- Three Dalvik registers, `v0` the start of a double: the fp loop gives
    `v0` and `v1` the pair `s16`, `s17`, skips `v1`, and gives `v2` the odd
    single `s19`; the core loop gives `v0` and `v2` the registers `r5` and
    `r6`, and stops at `v1`, which is not used. -/
def threeRegFpCounts : List RefCounts := [⟨4, 0, true⟩, ⟨2, 1, false⟩, ⟨1, 2, false⟩]

/-- The core counts of the same method. -/
def threeRegCoreCounts : List RefCounts := [⟨3, 0, false⟩, ⟨2, 2, false⟩, ⟨0, 1, false⟩]

theorem vmapTable_lookups_threeRegs :
    let st := (RegAlloc.compilerInitializeRegAlloc 64).doPromotion threeRegFpCounts
      threeRegCoreCounts true
    let m := st.mir.getCompiledMethod
    let t : VmapTable := ⟨m.vmap_table⟩
    (st.promotion_map 1).FpReg = 49 ∧ (st.promotion_map 2).FpReg = 51 ∧
    (st.promotion_map 2).core_reg = 6 ∧ (0 : Int) < 64 ∧ 3 ≤ 65535 ∧
    (∀ c ∈ threeRegFpCounts, c.s_reg < 3 ∧ (c.double_start = true → c.s_reg + 1 < 3)) ∧
    (∀ c ∈ threeRegCoreCounts, c.s_reg < 3) ∧
    (∀ v, (st.promotion_map v).core_location = .kLocPhysReg →
      isCalleeSaveCore (st.promotion_map v).core_reg = true ∧
      ∀ kind : VRegKind, kind.isFloat = false → ∃ off, t.isInContext v kind = some (true, off) ∧
        t.computeRegister m.core_spill_mask off kind = some (st.promotion_map v).core_reg) ∧
    (∀ v, (st.promotion_map v).fp_location = .kLocPhysReg →
      isCalleeSaveSingle (st.promotion_map v).FpReg = true ∧
      ∀ kind : VRegKind, kind.isFloat = true → ∃ off, t.isInContext v kind = some (true, off) ∧
        t.computeRegister m.fp_spill_mask off kind =
          some ((st.promotion_map v).FpReg - ARM_FP_REG_OFFSET)) ∧
    (∀ v < INVALID_VREG, ∀ kind : VRegKind,
      (kind.isFloat = false → (st.promotion_map v).core_location ≠ .kLocPhysReg →
        t.isInContext v kind = some (false, 0xEBAD0FF5)) ∧
      (kind.isFloat = true → (st.promotion_map v).fp_location ≠ .kLocPhysReg →
        t.isInContext v kind = some (false, 0xEBAD0FF5))) :=
  ⟨by decide, by decide, by decide, by decide, by decide, by decide, by decide,
    vmapTable_lookups 64 (by decide) 3 (by decide) threeRegFpCounts threeRegCoreCounts true
      (by decide) (by decide)⟩

end Mir2Lir

end ArtRuntime

