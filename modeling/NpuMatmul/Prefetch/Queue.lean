import Mathlib.Data.List.Basic

set_option autoImplicit false

namespace NpuMatmul

-- A std::queue of block pointers behind a mutex: each operation is one atomic step.
structure PrefetchQueue (Block : Type) where
  queue : List Block

namespace PrefetchQueue

variable {Block : Type}

def push (prefetchQueue : PrefetchQueue Block) (block : Block) : PrefetchQueue Block :=
  { queue := prefetchQueue.queue ++ [block] }

def pop (prefetchQueue : PrefetchQueue Block) : Option Block × PrefetchQueue Block :=
  match prefetchQueue.queue with
  | [] => (none, prefetchQueue)
  | block :: rest => (some block, { queue := rest })

-- The loop deletes the front until there is none; the second component is what it deleted.
def clearQueue (prefetchQueue : PrefetchQueue Block) : PrefetchQueue Block × List Block :=
  ({ queue := [] }, prefetchQueue.queue)

end PrefetchQueue

end NpuMatmul
