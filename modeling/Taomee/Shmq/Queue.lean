import Taomee.Lib.Bytes
import Taomee.Lib.CInt

/-!
# The shared-memory queue (interprocess/shmq.c)

One process pushes, another pops, and they share nothing but the mapping: a header with `head` and
`tail`, then the records. Each read or write of `head`, of `tail` and of a block or pad in the
mapping is one step of the process that makes it, and the steps of the two processes interleave
freely. What a process knows between two steps is in its program counter.
-/

namespace Taomee.Shmq

/-- A message: the bytes that a push copies in and a pop gives back. -/
abbrev Payload := List UInt8

/-- `sizeof(shm_cq_t)`: four 32-bit fields and the name. -/
def sizeofCq : Nat := 80

/-- `sizeof(shm_block_t)`: the length field of a record. -/
def sizeofBlock : Nat := 4

/-- The value of a length field that marks the unused end of the mapping. -/
def padLen : Nat := 0xFFFFFFFF

/-- The arguments of `shm_cq_create` that its assertion accepts. -/
structure CreateArgs where
  cqSize : Nat
  dataMaxSz : Nat
  lt_max : cqSize < 2000000000
  gt_data : cqSize > dataMaxSz
  room : cqSize ≥ dataMaxSz + sizeofBlock

/-- `shm_cq_t` and the mapping it heads. Offsets count from the start of the mapping. -/
structure ShmCq where
  head : Nat
  tail : Nat
  shmSize : Nat
  elemMaxSz : Nat
  mem : Buf

/-- `shm_cq_create`: the header it fills in; what the mapping holds is arbitrary. -/
def shmCqCreate (args : CreateArgs) (mem : Buf) : ShmCq where
  head := sizeofCq
  tail := sizeofCq
  shmSize := toU32 (args.cqSize + sizeofCq)
  elemMaxSz := toU32 (args.dataMaxSz + sizeofBlock)
  mem := mem

/-! ## Program counters -/

/-- Where the producer is: between two calls, or before a read or write of `shm_cq_push`. -/
inductive Producer where
  | idle
  /-- `shm_cq_align_tail`: `uint32_t tail_pos = q->tail` -/
  | alignTail (data : Payload)
  /-- `shm_cq_push_wait`: `uint32_t tail = q->tail` -/
  | pushWait (data : Payload)
  /-- the loop of `shm_cq_push_wait` -/
  | pushLoop (data : Payload) (tail cnt : Nat)
  /-- `shm_cq_tail_align_wait`: `uint32_t tail = q->tail` -/
  | tailWait (data : Payload) (surplus : Int)
  /-- the loop of `shm_cq_tail_align_wait` -/
  | tailLoop (data : Payload) (surplus : Int) (tail cnt : Nat)
  /-- `shm_block_t* pad = shm_cq_tail(q)` -/
  | padAt (data : Payload)
  /-- `pad->len = 0xFFFFFFFF` -/
  | padWrite (data : Payload) (pad : Nat)
  /-- `q->tail = sizeof(shm_cq_t)` -/
  | wrapTail (data : Payload)
  /-- `shm_block_t* next_mb = shm_cq_tail(q)` -/
  | nextBlock (data : Payload)
  /-- `next_mb->len = elem_len` -/
  | writeLen (data : Payload) (nextMb : Nat)
  /-- `memcpy(next_mb->data, data, len)` -/
  | writeData (data : Payload) (nextMb : Nat)
  /-- the read of `q->tail += elem_len` -/
  | readTail (data : Payload)
  /-- the write of `q->tail += elem_len` -/
  | publish (data : Payload) (tail : Nat)
  /-- `return 0` -/
  | done (data : Payload)

/-- Where the consumer is: between two calls, or before a read or write of `shm_cq_pop`. Only the
consumer writes `head`, so the order of its reads of `head` and `tail` in one comparison does not
matter. -/
inductive Consumer where
  | idle
  /-- the first `q->head == q->tail`, reading `head` -/
  | firstHead
  /-- the first `q->head == q->tail`, reading `tail` -/
  | firstTail (head : Nat)
  /-- `shm_cq_align_head`: `uint32_t head = q->head` -/
  | alignHead
  /-- `head < q->tail` -/
  | alignTail (head : Nat)
  /-- `shm_block_t* pad = shm_cq_head(q)` -/
  | padAt (head : Nat)
  /-- the test of the room left and of `pad->len` -/
  | padTest (head pad : Nat)
  /-- `q->head = sizeof(shm_cq_t)` -/
  | wrapHead
  /-- the second `q->head == q->tail`, reading `head` -/
  | secondHead
  /-- the second `q->head == q->tail`, reading `tail` -/
  | secondTail (head : Nat)
  /-- `shm_block_t* cur_mb = shm_cq_head(q)` -/
  | curBlock
  /-- `assert(cur_mb->len <= q->elem_max_sz)` -/
  | checkLen (curMb : Nat)
  /-- the reads of `q->head += cur_mb->len`: first `head` -/
  | advanceHead (curMb : Nat)
  /-- the reads of `q->head += cur_mb->len`: then the length -/
  | advanceLen (curMb head : Nat)
  /-- the write of `q->head += cur_mb->len` -/
  | advance (curMb head len : Nat)
  /-- `return cur_mb->len - sizeof(shm_block_t)` -/
  | returnLen (curMb : Nat)
  /-- `shm_cq_pop` has returned `n`, with `*data` the bytes behind `curMb`; the caller reads them
  before its next call -/
  | returned (curMb n : Nat)
  /-- the assertion failed -/
  | aborted

/-! ## Steps -/

/-- What must not happen. -/
inductive Fault where
  /-- an access of `size` bytes at `off` that leaves the records -/
  | outside (off size : Nat)
  /-- a sum of `uint32_t` values that does not fit -/
  | wrapped (sum : Nat)
  /-- `assert(cur_mb->len <= q->elem_max_sz)` failed -/
  | assertion (len : Nat)

/-- The fault of reading or writing `size` bytes at `off`, if it is one. -/
def ShmCq.touch (q : ShmCq) (off size : Nat) : List Fault :=
  if sizeofCq ≤ off ∧ off + size ≤ q.shmSize then [] else [.outside off size]

/-- The fault of computing a sum in `uint32_t`, if it is one. -/
def overflow (sum : Nat) : List Fault := if sum < 2 ^ 32 then [] else [.wrapped sum]

/-- Both processes and what they share. `pushed` lists the payloads whose push returned 0, `popped`
the payloads that pops with a nonzero result gave, `faults` every fault so far. -/
structure World where
  q : ShmCq
  producer : Producer
  consumer : Consumer
  pushed : List Payload
  popped : List Payload
  faults : List Fault

/-- The queue right after `shm_cq_create`. -/
def World.init (args : CreateArgs) (mem : Buf) : World where
  q := shmCqCreate args mem
  producer := .idle
  consumer := .idle
  pushed := []
  popped := []
  faults := []

/-- `elem_len` of a push of `data`. -/
def elemLen (data : Payload) : Nat := toU32 (data.length + sizeofBlock)

/-- The producer's next step. -/
def producerStep (w : World) : World :=
  let q := w.q
  match w.producer with
  | .idle => w
  | .alignTail data =>
      let surplus := toI32 ((q.shmSize : Int) - q.tail)
      if toU32 surplus ≥ elemLen data then { w with producer := .pushWait data }
      else { w with producer := .tailWait data surplus }
  | .pushWait data => { w with producer := .pushLoop data q.tail 0 }
  | .pushLoop data tail cnt =>
      let sum := tail + elemLen data + q.elemMaxSz
      if q.head ≤ tail then { w with producer := .nextBlock data }
      else if q.head ≥ toU32 sum then
        { w with producer := .nextBlock data, faults := w.faults ++ overflow sum }
      else if cnt + 1 = 10 then { w with producer := .idle, faults := w.faults ++ overflow sum }
      else { w with producer := .pushLoop data tail (cnt + 1), faults := w.faults ++ overflow sum }
  | .tailWait data surplus => { w with producer := .tailLoop data surplus q.tail 0 }
  | .tailLoop data surplus tail cnt =>
      if q.head > sizeofCq ∧ q.head ≤ tail then
        if toU64 surplus ≥ sizeofBlock then { w with producer := .padAt data }
        else { w with producer := .wrapTail data }
      else if cnt + 1 = 10 then { w with producer := .idle }
      else { w with producer := .tailLoop data surplus tail (cnt + 1) }
  | .padAt data => { w with producer := .padWrite data q.tail }
  | .padWrite data pad =>
      { w with
        q := { q with mem := q.mem.store32 pad padLen }
        producer := .wrapTail data
        faults := w.faults ++ q.touch pad 4 }
  | .wrapTail data => { w with q := { q with tail := sizeofCq }, producer := .pushWait data }
  | .nextBlock data => { w with producer := .writeLen data q.tail }
  | .writeLen data nextMb =>
      { w with
        q := { q with mem := q.mem.store32 nextMb (elemLen data) }
        producer := .writeData data nextMb
        faults := w.faults ++ q.touch nextMb 4 }
  | .writeData data nextMb =>
      { w with
        q := { q with mem := q.mem.write (nextMb + sizeofBlock) data }
        producer := .readTail data
        faults := w.faults ++ q.touch (nextMb + sizeofBlock) data.length }
  | .readTail data => { w with producer := .publish data q.tail }
  | .publish data tail =>
      { w with
        q := { q with tail := toU32 (tail + elemLen data) }
        producer := .done data
        faults := w.faults ++ overflow (tail + elemLen data) }
  | .done data => { w with producer := .idle, pushed := w.pushed ++ [data] }

/-- The consumer's next step. -/
def consumerStep (w : World) : World :=
  let q := w.q
  match w.consumer with
  | .idle => w
  | .firstHead => { w with consumer := .firstTail q.head }
  | .firstTail head =>
      if head = q.tail then { w with consumer := .idle } else { w with consumer := .alignHead }
  | .alignHead => { w with consumer := .alignTail q.head }
  | .alignTail head =>
      if head < q.tail then { w with consumer := .secondHead }
      else { w with consumer := .padAt head }
  | .padAt head => { w with consumer := .padTest head q.head }
  | .padTest head pad =>
      if toU32 ((q.shmSize : Int) - head) < sizeofBlock then { w with consumer := .wrapHead }
      else
        { w with
          consumer := if q.mem.load32 pad = padLen then .wrapHead else .secondHead
          faults := w.faults ++ q.touch pad 4 }
  | .wrapHead => { w with q := { q with head := sizeofCq }, consumer := .secondHead }
  | .secondHead => { w with consumer := .secondTail q.head }
  | .secondTail head =>
      if head = q.tail then { w with consumer := .idle } else { w with consumer := .curBlock }
  | .curBlock => { w with consumer := .checkLen q.head }
  | .checkLen curMb =>
      let len := q.mem.load32 curMb
      if len ≤ q.elemMaxSz then
        { w with consumer := .advanceHead curMb, faults := w.faults ++ q.touch curMb 4 }
      else { w with consumer := .aborted, faults := w.faults ++ q.touch curMb 4 ++ [.assertion len] }
  | .advanceHead curMb => { w with consumer := .advanceLen curMb q.head }
  | .advanceLen curMb head =>
      { w with
        consumer := .advance curMb head (q.mem.load32 curMb)
        faults := w.faults ++ q.touch curMb 4 }
  | .advance curMb head len =>
      { w with
        q := { q with head := toU32 (head + len) }
        consumer := .returnLen curMb
        faults := w.faults ++ overflow (head + len) }
  | .returnLen curMb =>
      { w with
        consumer := .returned curMb (toU32 ((q.mem.load32 curMb : Int) - sizeofBlock))
        faults := w.faults ++ q.touch curMb 4 }
  | .returned curMb n =>
      -- a result of 0 means an empty queue to the caller
      if n = 0 then { w with consumer := .idle }
      else
        { w with
          consumer := .idle
          popped := w.popped ++ [q.mem.slice (curMb + sizeofBlock) n]
          faults := w.faults ++ q.touch (curMb + sizeofBlock) n }
  | .aborted => w

/-- One atomic step of either process. Between two calls a process may start another: a push of
`1 ≤ len ≤ data_max_sz` bytes, or a pop. -/
inductive Step (args : CreateArgs) : World → World → Prop
  | push (w : World) (data : Payload) : w.producer = .idle → 1 ≤ data.length →
      data.length ≤ args.dataMaxSz → Step args w { w with producer := .alignTail data }
  | pop (w : World) : w.consumer = .idle → Step args w { w with consumer := .firstHead }
  | producer (w : World) : Step args w (producerStep w)
  | consumer (w : World) : Step args w (consumerStep w)

/-- The states of the two processes and the queue in any run from `shm_cq_create` on. -/
inductive Reachable (args : CreateArgs) (mem : Buf) : World → Prop
  | init : Reachable args mem (World.init args mem)
  | next {w w' : World} : Reachable args mem w → Step args w w' → Reachable args mem w'

/-- The payload of a push that has published `tail` and is about to return 0. -/
def Producer.pending : Producer → List Payload
  | .done data => [data]
  | _ => []

end Taomee.Shmq
