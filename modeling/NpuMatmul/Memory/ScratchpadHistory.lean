import NpuMatmul.Memory.ScratchpadSafety

set_option autoImplicit false

namespace NpuMatmul.Scratchpad

open LinkedHeap Tiling Relation

section Canonical

variable {start stop : Nat} {block : Block} {blocks blocks' rest : List Block}

theorem tiled_cons (tiled : Tiled start stop (block :: rest)) :
    block.address = start ∧ Tiled (block.payload + block.size) stop rest := by
  obtain ⟨address, covered⟩ := tiled.tiles
  refine ⟨address, ?_, fun other member => tiled.aligned other (by simp [member]),
    fun other member => tiled.started other (by simp [member])⟩
  have place : block.address = start := address
  have reached : start + block.extent.2 = block.payload + block.size := by
    simp only [Block.extent, Block.payload]
    omega
  rw [← reached]
  exact covered

theorem tiled_empty (tiled : Tiled start start blocks) : blocks = [] := by
  cases blocks with
  | nil => rfl
  | cons block rest =>
    have room := tiled.inside (show block ∈ block :: rest by simp)
    simp only [Block.payload, sizeofBlockHeader] at room
    omega

theorem free_reaches (tiled : Tiled start stop (block :: rest))
    (coalesced : Coalesced (block :: rest)) (free : block.isFree = true) :
    block.payload + block.size = ((occupied rest).head?.map Block.address).getD stop := by
  obtain ⟨-, later⟩ := tiled_cons tiled
  cases rest with
  | nil =>
    have last : block.payload + block.size = stop := later.tiles
    simpa using last
  | cons next others =>
    have taken : next.isFree = false := by
      have seam := (coalesced_cons.mp coalesced).1 next rfl
      simpa [free] using seam
    have address := (tiled_cons later).1
    simp [taken, address]

theorem blocks_determined (tiled : Tiled start stop blocks) (tiled' : Tiled start stop blocks')
    (coalesced : Coalesced blocks) (coalesced' : Coalesced blocks')
    (same : occupied blocks = occupied blocks') : blocks = blocks' := by
  induction blocks generalizing start blocks' with
  | nil =>
    have empty : start = stop := tiled.tiles
    exact (tiled_empty (empty ▸ tiled')).symm
  | cons block rest ih =>
    cases blocks' with
    | nil =>
      have empty : start = stop := tiled'.tiles
      exact tiled_empty (empty ▸ tiled)
    | cons block' rest' =>
      obtain ⟨address, later⟩ := tiled_cons tiled
      obtain ⟨address', later'⟩ := tiled_cons tiled'
      have tail := (coalesced_cons.mp coalesced).2
      have tail' := (coalesced_cons.mp coalesced').2
      -- The first block of one list is no later block of the other.
      have early : block' ∉ occupied rest := by
        intro member
        have bound := (later.inside (mem_occupied.mp member).1).1
        simp only [Block.payload, sizeofBlockHeader] at bound
        omega
      have early' : block ∉ occupied rest' := by
        intro member
        have bound := (later'.inside (mem_occupied.mp member).1).1
        simp only [Block.payload, sizeofBlockHeader] at bound
        omega
      have first : block = block' ∧ occupied rest = occupied rest' := by
        cases state : block.isFree <;> cases state' : block'.isFree
        · simpa [state, state'] using same
        · simp only [occupied_cons, state, state', if_true, Bool.false_eq_true, if_false,
            List.nil_append, List.singleton_append] at same
          exact absurd (same ▸ List.mem_cons_self) early'
        · simp only [occupied_cons, state, state', if_true, Bool.false_eq_true, if_false,
            List.nil_append, List.singleton_append] at same
          exact absurd (same ▸ List.mem_cons_self) early
        · have others : occupied rest = occupied rest' := by simpa [state, state'] using same
          have ends := free_reaches tiled coalesced state
          have ends' := free_reaches tiled' coalesced' state'
          rw [others, ← ends'] at ends
          have size : block.size = block'.size := by
            simp only [Block.payload] at ends
            omega
          have equal : block = block' := by
            cases block
            cases block'
            simp_all
          exact ⟨equal, others⟩
      obtain ⟨rfl, others⟩ := first
      rw [ih later later' tail tail' others]

theorem occupied_ordered (tiled : Tiled start stop blocks) :
    (occupied blocks).Pairwise fun left right => left.address < right.address := by
  have ordered := List.pairwise_map.mp tiled.tiles.ordered
  refine (ordered.imp ?_).sublist List.filter_sublist
  intro left right before
  simp only [Block.extent, sizeofBlockHeader] at before
  omega

theorem occupied_unique (tiled : Tiled start stop blocks) (tiled' : Tiled start stop blocks')
    (members : ∀ block, block ∈ occupied blocks ↔ block ∈ occupied blocks') :
    occupied blocks = occupied blocks' := by
  have ordered := occupied_ordered tiled
  have ordered' := occupied_ordered tiled'
  have distinct : ∀ {bs : List Block}, bs.Pairwise (fun left right => left.address < right.address) →
      bs.Nodup := fun before => before.imp fun lower same => by simp [same] at lower
  have perm := (List.perm_ext_iff_of_nodup (distinct ordered) (distinct ordered')).mpr members
  refine perm.eq_of_pairwise (fun left right _ _ lower higher => ?_) ordered ordered'
  omega

end Canonical

structure Session.SameLive (session session' : Session) : Prop where
  buffer : session.pad.memoryBuffer = session'.pad.memoryBuffer
  live : session.live.Perm session'.live
  payloads : ∀ allocation ∈ session.live,
    session.pad.payload allocation = session'.pad.payload allocation

theorem Session.SameLive.symm {session session' : Session} (same : session.SameLive session') :
    session'.SameLive session :=
  ⟨same.buffer.symm, same.live.symm, fun allocation member =>
    (same.payloads allocation (same.live.mem_iff.mpr member)).symm⟩

theorem occupied_of_live {pad pad' : Scratchpad} {live live' : List Allocation} {base base' : Nat}
    {blocks blocks' : List Block} (fits : Matches pad live base blocks)
    (fits' : Matches pad' live' base' blocks') (kept : ∀ allocation ∈ live, allocation ∈ live')
    (payloads : ∀ allocation ∈ live, pad.payload allocation = pad'.payload allocation) :
    ∀ block ∈ occupied blocks, block ∈ occupied blocks' := by
  intro block member
  have pointer := fits.pointers.mem_iff.mpr (List.mem_map_of_mem (f := Block.payload) member)
  obtain ⟨allocation, known, same⟩ := List.mem_map.mp pointer
  obtain ⟨live, arena⟩ := List.mem_filter.mp known
  have arena : allocation.fromHeap = false := by simpa using arena
  obtain ⟨other, otherMember, otherSame, range⟩ := fits.block live arena
  have equal : other = block :=
    List.inj_on_of_nodup_map fits.laid.payload_nodup otherMember member (otherSame.trans same)
  obtain ⟨there, thereMember, -, thereRange⟩ := fits'.block (kept allocation live) arena
  have ranges := (range.symm.trans (payloads allocation live)).trans thereRange
  rw [equal] at ranges
  have address : block.payload = there.payload := congrArg Prod.fst ranges
  have size : block.size = there.size := congrArg Prod.snd ranges
  have taken := (mem_occupied.mp member).2
  have takenThere := (mem_occupied.mp thereMember).2
  have same : block = there := by
    cases block
    cases there
    simp_all [Block.payload]
  exact same ▸ thereMember

-- What two sessions that differ in their histories only have in common.
inductive Alike (session session' : Session) : Prop
  | absent (buffer : session.pad.memoryBuffer = none) (buffer' : session'.pad.memoryBuffer = none)
      (head : session.pad.headBlock = none) (head' : session'.pad.headBlock = none)
      (empty : arenaPointers session.live = []) (live : session.live.Perm session'.live)
  | present (base : Nat) (blocks : List Block) (live : session.live.Perm session'.live)
      (fits : Matches session.pad session.live base blocks)
      (fits' : Matches session'.pad session'.live base blocks)

section Sessions

variable {totalSize : Nat} {session session' : Session}

theorem alike_of_sameLive (inv : session.Invariant totalSize) (inv' : session'.Invariant totalSize)
    (same : session.SameLive session') : Alike session session' := by
  cases inv.arena with
  | absent buffer head empty =>
    cases inv'.arena with
    | absent buffer' head' _ => exact .absent buffer buffer' head head' empty same.live
    | present base blocks fits =>
      have known := same.buffer.symm.trans buffer
      simp [fits.laid.buffer] at known
  | present base blocks fits =>
    cases inv'.arena with
    | absent buffer' _ _ =>
      have known := same.buffer.trans buffer'
      simp [fits.laid.buffer] at known
    | present base' blocks' fits' =>
      have buffers : base = base' := by
        have known := same.buffer
        rw [fits.laid.buffer, fits'.laid.buffer] at known
        exact Option.some.inj known
      subst buffers
      have forward := occupied_of_live fits fits'
        (fun allocation => same.live.mem_iff.mp) same.payloads
      have backward := occupied_of_live fits' fits
        (fun allocation => same.live.mem_iff.mpr) same.symm.payloads
      have tiled := fits.laid.tiled
      have tiled' := fits'.laid.tiled
      rw [inv.size] at tiled
      rw [inv'.size] at tiled'
      have members : ∀ block, block ∈ occupied blocks ↔ block ∈ occupied blocks' :=
        fun block => ⟨forward block, backward block⟩
      have equal := occupied_unique tiled tiled' members
      have lists := blocks_determined tiled tiled' fits.laid.coalesced fits'.laid.coalesced equal
      exact .present base blocks same.live fits (lists ▸ fits')

theorem sameLive_of_alike (alike : Alike session session') : session.SameLive session' := by
  cases alike with
  | absent buffer buffer' head head' empty live =>
    refine ⟨buffer.trans buffer'.symm, live, fun allocation member => ?_⟩
    cases kind : allocation.fromHeap with
    | true => simp [payload, kind]
    | false =>
      have known := mem_arenaPointers member kind
      simp [empty] at known
  | present base blocks live fits fits' =>
    refine ⟨fits.laid.buffer.trans fits'.laid.buffer.symm, live, fun allocation member => ?_⟩
    cases kind : allocation.fromHeap with
    | true => simp [payload, kind]
    | false =>
      obtain ⟨block, inside, same, range⟩ := fits.block member kind
      obtain ⟨block', inside', same', range'⟩ := fits'.block (live.mem_iff.mp member) kind
      have equal : block = block' :=
        List.inj_on_of_nodup_map fits.laid.payload_nodup inside inside' (same.trans same'.symm)
      rw [range, range', equal]

inductive Session.Silent : Session → Session → Prop
  | freeNull (session : Session) : Silent session ⟨(session.pad.free none).1, session.live⟩
  | write (session : Session) (headers : Nat → BlockHeader)
      (confined : ∀ address, (∀ allocation ∈ session.live,
        Apart (address, sizeofBlockHeader) (session.pad.payload allocation)) →
          headers address = session.pad.headers address) :
      Silent session ⟨{ session.pad with headers := headers }, session.live⟩

inductive Request
  | alloc (size : Nat) (system : SystemMemory)
  | free (allocation : Allocation)

inductive Session.Call : Session → Request → Option AllocResult → Session → Prop
  | alloc (session : Session) (size : Nat) (system : SystemMemory) (result : AllocResult)
      (pad : Scratchpad) (small : size + 127 < 2 ^ 64) (sound : Sound system session size)
      (call : session.pad.alloc size system = some (result, pad)) :
      Call session (.alloc size system) (some result) ⟨pad, remember session.live size result⟩
  | free (session : Session) (allocation : Allocation) (live : allocation ∈ session.live) :
      Call session (.free allocation) none
        ⟨(session.pad.free (some allocation.pointer)).1, session.live.erase allocation⟩

-- The answers to a list of requests, the callers writing whatever they may in between.
def Session.Answers : Session → List Request → List (Option AllocResult) → Session → Prop
  | session, [], [], last => ReflTransGen Silent session last
  | session, request :: requests, answer :: answers, last =>
      ∃ called next, ReflTransGen Silent session called ∧ called.Call request answer next ∧
        next.Answers requests answers last
  | _, _, _, _ => False

theorem Session.SameLive.trans {session₁ session₂ session₃ : Session}
    (first : session₁.SameLive session₂) (second : session₂.SameLive session₃) :
    session₁.SameLive session₃ :=
  ⟨first.buffer.trans second.buffer, first.live.trans second.live, fun allocation member =>
    (first.payloads allocation member).trans
      (second.payloads allocation (first.live.mem_iff.mp member))⟩

theorem Session.Silent.step (silent : session.Silent session') : session.Step session' := by
  cases silent with
  | freeNull => exact .freeNull session
  | write headers confined => exact .write session headers confined

theorem Session.Call.step {request : Request} {answer : Option AllocResult}
    (call : session.Call request answer session') : session.Step session' := by
  cases call with
  | alloc size system result pad small sound call =>
    exact .alloc session size system result pad small sound call
  | free allocation live => exact .free session allocation live

theorem silent_sameLive (inv : session.Invariant totalSize) (silent : session.Silent session') :
    session.SameLive session' := by
  cases silent with
  | freeNull => exact ⟨rfl, .refl _, fun _ _ => rfl⟩
  | write headers confined =>
    refine ⟨rfl, .refl _, fun allocation member => ?_⟩
    cases kind : allocation.fromHeap with
    | true => simp [payload, kind]
    | false =>
      cases inv.arena with
      | absent buffer head empty =>
        have known := mem_arenaPointers member kind
        simp [empty] at known
      | present base blocks fits =>
        obtain ⟨block, inside, same, -⟩ := fits.block member kind
        have kept : headers block.address = session.pad.headers block.address :=
          confined _ fun other otherMember =>
            header_apart fits inv.heap (mem_occupied.mp inside).1 otherMember
        have address : allocation.pointer - sizeofBlockHeader = block.address := by
          rw [← same]
          simp [Block.payload]
        simp [payload, kind, capacity, address, kept]

variable (large : 2 * sizeofBlockHeader ≤ totalSize)

include large in
theorem silent_run (inv : session.Invariant totalSize)
    (silent : ReflTransGen Session.Silent session session') :
    session'.Invariant totalSize ∧ session.SameLive session' := by
  induction silent with
  | refl => exact ⟨inv, rfl, .refl _, fun _ _ => rfl⟩
  | tail _ last ih =>
    obtain ⟨kept, same⟩ := ih
    exact ⟨invariant_step large kept last.step, same.trans (silent_sameLive kept last)⟩

theorem findBlock_agree {headers headers' : Nat → BlockHeader} {prev prev' : Option Nat}
    {blocks : List Block} (size fuel : Nat) (represents : Represents headers prev blocks none)
    (represents' : Represents headers' prev' blocks none) :
    findBlock headers size fuel (nextOf blocks) = findBlock headers' size fuel (nextOf blocks) := by
  induction blocks generalizing prev prev' fuel with
  | nil => simp [findBlock]
  | cons block rest ih =>
    obtain ⟨header, tail⟩ := represents_cons.mp represents
    obtain ⟨header', tail'⟩ := represents_cons.mp represents'
    cases fuel with
    | zero => rfl
    | succ fuel =>
      have later := ih fuel tail tail'
      simp only [nextOf] at later
      simp only [nextOf_cons, findBlock, header, header', later]

theorem alloc_agree {pad pad' : Scratchpad} {base : Nat} {blocks : List Block} (size : Nat)
    (system : SystemMemory) (laid : Laid pad base blocks) (laid' : Laid pad' base blocks)
    (totals : pad.totalSize = pad'.totalSize) :
    (pad.alloc size system).map Prod.fst = (pad'.alloc size system).map Prod.fst := by
  have ready : pad.initializeIfNeeded system = pad := by
    simp [initializeIfNeeded, laid.buffer]
  have ready' : pad'.initializeIfNeeded system = pad' := by
    simp [initializeIfNeeded, laid'.buffer]
  have found := findBlock_agree (alignUp size) pad'.totalSize laid.represents laid'.represents
  simp only [alloc, ready, ready', laid.head, laid'.head, totals, found]
  split <;> rfl

theorem remember_perm {live live' : List Allocation} (perm : live.Perm live') (size : Nat)
    (result : AllocResult) : (remember live size result).Perm (remember live' size result) := by
  unfold remember
  split
  · exact perm
  · exact perm.cons _

theorem matches_remember_heap {pad : Scratchpad} {live : List Allocation} {base : Nat}
    {blocks : List Block} (fits : Matches pad live base blocks) (size : Nat)
    (pointer : Option Nat) : Matches pad (remember live size ⟨pointer, true⟩) base blocks := by
  cases pointer with
  | none => exact fits
  | some pointer =>
    refine ⟨fits.laid, fits.pointers, fun allocation member kind => ?_⟩
    rcases List.mem_cons.mp member with rfl | later
    · simp at kind
    · exact fits.requested allocation later kind

theorem arenaPointers_remember_heap (live : List Allocation) (size : Nat)
    (pointer : Option Nat) :
    arenaPointers (remember live size ⟨pointer, true⟩) = arenaPointers live := by
  cases pointer <;> rfl

include large in
theorem alike_initialize {system : SystemMemory} (sizes : session.pad.totalSize = totalSize)
    (sizes' : session'.pad.totalSize = totalSize) (alike : Alike session session')
    (aligned : ∀ base, arenaSource system = some base → base % 128 = 0) :
    Alike ⟨session.pad.initializeIfNeeded system, session.live⟩
      ⟨session'.pad.initializeIfNeeded system, session'.live⟩ := by
  cases alike with
  | absent buffer buffer' head head' empty live =>
    have empty' : arenaPointers session'.live = [] :=
      List.Perm.nil_eq (empty ▸ (live.filter _).map Allocation.pointer) |>.symm
    cases source : arenaSource system with
    | none =>
      have same : session.pad.initializeIfNeeded system = session.pad := by
        simp [initializeIfNeeded, buffer, source]
      have same' : session'.pad.initializeIfNeeded system = session'.pad := by
        simp [initializeIfNeeded, buffer', source]
      rw [same, same']
      exact .absent buffer buffer' head head' empty live
    | some base =>
      have laid := laid_initial (sizes ▸ large) buffer source (aligned base source)
      have laid' := laid_initial (sizes' ▸ large) buffer' source (aligned base source)
      rw [sizes] at laid
      rw [sizes'] at laid'
      exact .present base _ live ⟨laid, by simp [empty], by simp⟩ ⟨laid', by simp [empty'], by simp⟩
  | present base blocks live fits fits' =>
    have same : session.pad.initializeIfNeeded system = session.pad := by
      simp [initializeIfNeeded, fits.laid.buffer]
    have same' : session'.pad.initializeIfNeeded system = session'.pad := by
      simp [initializeIfNeeded, fits'.laid.buffer]
    rw [same, same']
    exact .present base blocks live fits fits'

theorem blocks_nodup {pad : Scratchpad} {base : Nat} {blocks : List Block}
    (laid : Laid pad base blocks) : blocks.Nodup := List.Nodup.of_map _ laid.tiled.nodup

theorem alike_alloc {size : Nat} {system : SystemMemory} {result result' : AllocResult}
    {pad pad' : Scratchpad} (totals : session.pad.totalSize = session'.pad.totalSize)
    (alike : Alike session session') (small : size + 127 < 2 ^ 64)
    (ready : session.pad.initializeIfNeeded system = session.pad)
    (ready' : session'.pad.initializeIfNeeded system = session'.pad)
    (call : session.pad.alloc size system = some (result, pad))
    (call' : session'.pad.alloc size system = some (result', pad')) :
    result = result' ∧ Alike ⟨pad, remember session.live size result⟩
      ⟨pad', remember session'.live size result'⟩ := by
  cases alike with
  | absent buffer buffer' head head' empty live =>
    rw [alloc_absent (by rw [ready, head]), ready] at call
    rw [alloc_absent (by rw [ready', head']), ready'] at call'
    obtain ⟨rfl, rfl⟩ := Prod.mk.inj (Option.some.inj call)
    obtain ⟨rfl, rfl⟩ := Prod.mk.inj (Option.some.inj call')
    exact ⟨rfl, .absent buffer buffer' head head'
      ((arenaPointers_remember_heap _ _ _).trans empty) (remember_perm live size _)⟩
  | present base blocks live fits fits' =>
    have agree := alloc_agree size system fits.laid fits'.laid totals
    rw [call, call'] at agree
    have answers : result = result' := Option.some.inj agree
    subst answers
    refine ⟨rfl, ?_⟩
    have lives := remember_perm live size result
    rcases alloc_laid size system fits.laid with
      ⟨answer, none⟩ | ⟨before, block, after, next, shape, free, room, answer, -, laid⟩
    · rcases alloc_laid size system fits'.laid with
        ⟨answer', -⟩ | ⟨before', block', after', next', shape', free', room', -, -, -⟩
      · obtain ⟨rfl, rfl⟩ := Prod.mk.inj (Option.some.inj (call.symm.trans answer))
        obtain ⟨-, rfl⟩ := Prod.mk.inj (Option.some.inj (call'.symm.trans answer'))
        exact .present base blocks lives (matches_remember_heap fits size _)
          (matches_remember_heap fits' size _)
      · have bound := none block' (by simp [shape']) free'
        omega
    · obtain ⟨given, rfl⟩ := Prod.mk.inj (Option.some.inj (call.symm.trans answer))
      rcases alloc_laid size system fits'.laid with
        ⟨answer', none'⟩ | ⟨before', block', after', next', shape', -, -, answer', -, laid'⟩
      · have bound := none' block (by simp [shape]) free
        omega
      · obtain ⟨given', rfl⟩ := Prod.mk.inj (Option.some.inj (call'.symm.trans answer'))
        have pointers : block.payload = block'.payload :=
          Option.some.inj (congrArg AllocResult.pointer (given.symm.trans given'))
        have equal : block = block' :=
          List.inj_on_of_nodup_map fits.laid.tiled.nodup (by simp [shape]) (by simp [shape'])
            (Nat.add_right_cancel pointers)
        subst equal
        have nodup := blocks_nodup fits.laid
        rw [shape] at nodup
        have fresh := List.nodup_middle.mp nodup
        have notIn := (List.nodup_cons.mp fresh).1
        obtain ⟨rfl, -, rfl⟩ := (List.append_cons_inj_of_notMem
          (fun member => notIn (List.mem_append_left _ member))
          (fun member => notIn (List.mem_append_right _ member))).mp (shape.symm.trans shape')
        subst given
        subst shape
        exact .present base _ lives (remember_arena_matches fits free room small laid)
          (remember_arena_matches fits' free room small laid')

theorem free_buffer (pad : Scratchpad) (pointer : Option Nat) :
    (pad.free pointer).1.memoryBuffer = pad.memoryBuffer := by
  unfold free
  split
  · rfl
  · split <;> rfl

variable {request : Request} {answer answer' : Option AllocResult} {next next' : Session}

include large in
theorem call_agrees (inv : session.Invariant totalSize) (inv' : session'.Invariant totalSize)
    (same : session.SameLive session') (call : session.Call request answer next)
    (call' : session'.Call request answer' next') : answer = answer' ∧ next.SameLive next' := by
  cases call with
  | alloc size system result pad small sound call =>
    cases call' with
    | alloc _ _ result' pad' small' sound' call' =>
      have alike := alike_initialize large inv.size inv'.size
        (alike_of_sameLive inv inv' same) sound.aligned
      have totals := inv.size.trans inv'.size.symm
      rw [← initializeIfNeeded_totalSize session.pad system,
        ← initializeIfNeeded_totalSize session'.pad system] at totals
      rw [← alloc_initialize] at call call'
      obtain ⟨answers, after⟩ := alike_alloc totals alike small
        (initialize_idempotent _ _) (initialize_idempotent _ _) call call'
      exact ⟨congrArg some answers, sameLive_of_alike after⟩
  | free allocation member =>
    cases call' with
    | free _ member' =>
      refine ⟨rfl, ?_, same.live.erase allocation, fun other remains => ?_⟩
      · rw [free_buffer, free_buffer]
        exact same.buffer
      · have remains' := (same.live.erase allocation).mem_iff.mp remains
        rw [free_keeps_payload inv member remains, free_keeps_payload inv' member' remains']
        exact same.payloads other (List.mem_of_mem_erase remains)

include large in
theorem answers_agree {requests : List Request} {answers answers' : List (Option AllocResult)}
    {last last' : Session} (inv : session.Invariant totalSize)
    (inv' : session'.Invariant totalSize) (same : session.SameLive session')
    (answered : session.Answers requests answers last)
    (answered' : session'.Answers requests answers' last') :
    answers = answers' ∧ last.SameLive last' := by
  induction requests generalizing session session' answers answers' with
  | nil =>
    cases answers with
    | cons answer answers => exact answered.elim
    | nil =>
      cases answers' with
      | cons answer' answers' => exact answered'.elim
      | nil =>
        have left := (silent_run large inv answered).2
        have right := (silent_run large inv' answered').2
        exact ⟨rfl, (left.symm.trans same).trans right⟩
  | cons request requests ih =>
    cases answers with
    | nil => exact answered.elim
    | cons answer answers =>
      cases answers' with
      | nil => exact answered'.elim
      | cons answer' answers' =>
        obtain ⟨called, next, silent, call, later⟩ := answered
        obtain ⟨called', next', silent', call', later'⟩ := answered'
        obtain ⟨kept, left⟩ := silent_run large inv silent
        obtain ⟨kept', right⟩ := silent_run large inv' silent'
        have reached := (left.symm.trans same).trans right
        obtain ⟨rfl, alike⟩ := call_agrees large kept kept' reached call call'
        obtain ⟨rfl, ends⟩ := ih (invariant_step large kept call.step)
          (invariant_step large kept' call'.step) alike later later'
        exact ⟨rfl, ends⟩

theorem alike_headers (alike : Alike session session') :
    session.pad.headBlock = session'.pad.headBlock ∧
      ∀ address, session.pad.Listed address →
        session'.pad.headers address = session.pad.headers address := by
  cases alike with
  | absent buffer buffer' head head' empty live =>
    refine ⟨head.trans head'.symm, fun address listed => ?_⟩
    rw [Listed, head] at listed
    cases listed
  | present base blocks live fits fits' =>
    refine ⟨fits.laid.head.trans fits'.laid.head.symm, fun address listed => ?_⟩
    obtain ⟨block, member, rfl⟩ := (fits.laid.listed_iff address).mp listed
    obtain ⟨before, after, rfl⟩ := List.append_of_mem member
    rw [fits.laid.represents.header, fits'.laid.represents.header]

end Sessions

-- Two runs that end with the same arena, the same live allocations and the same usable bytes
-- behind each have the same header list, and every later sequence of requests gets the same answers
-- from both, whatever the callers wrote before and write in between.
theorem arena_forgets_history {totalSize : Nat} {headers headers' : Nat → BlockHeader}
    {session session' : Session} (large : 2 * sizeofBlockHeader ≤ totalSize)
    (run : ReflTransGen Session.Step (Session.start totalSize headers) session)
    (run' : ReflTransGen Session.Step (Session.start totalSize headers') session')
    (same : session.SameLive session') :
    session.pad.headBlock = session'.pad.headBlock ∧
      (∀ address, session.pad.Listed address →
        session'.pad.headers address = session.pad.headers address) ∧
      ∀ requests answers answers' last last', session.Answers requests answers last →
        session'.Answers requests answers' last' → answers = answers' ∧ last.SameLive last' := by
  have inv := invariant_run large run
  have inv' := invariant_run large run'
  obtain ⟨heads, lists⟩ := alike_headers (alike_of_sameLive inv inv' same)
  exact ⟨heads, lists, fun requests answers answers' last last' answered answered' =>
    answers_agree large inv inv' same answered answered'⟩

def detourSession : Session :=
  match sampleSession.pad.alloc 200 sampleMemory with
  | some (⟨some pointer, false⟩, pad) => ⟨(pad.free (some pointer)).1, sampleSession.live⟩
  | _ => sampleSession

theorem detour_run :
    ReflTransGen Session.Step (Session.start 1024 fun _ => ⟨0, false, none, none⟩)
      detourSession := by
  have sound := @sound_sample sampleSession (by simp [sampleSession]) 200
  have taken := sample_run.tail (.alloc _ 200 sampleMemory ⟨some 4480, false⟩ _ (by decide) sound rfl)
  exact taken.tail (.free _ ⟨4480, 200, false⟩ (by simp [remember]))

theorem arena_forgets_detour :
    sampleSession.pad.headBlock = detourSession.pad.headBlock ∧
      (∀ address, sampleSession.pad.Listed address →
        detourSession.pad.headers address = sampleSession.pad.headers address) ∧
      ∀ requests answers answers' last last', sampleSession.Answers requests answers last →
        detourSession.Answers requests answers' last' → answers = answers' ∧ last.SameLive last' :=
  arena_forgets_history (by decide) sample_run detour_run
    ⟨rfl, .refl _, fun allocation member => by
      rw [List.mem_singleton.mp member]
      rfl⟩

end NpuMatmul.Scratchpad
