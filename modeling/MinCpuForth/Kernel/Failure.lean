import MinCpuForth.Kernel.Agreement

/-!
# Builds that fail

A build writes as it goes, and nothing is taken back: a `KernelError` leaves the words that were
installed before the name that could not be resolved, and the boot thread up to it.
-/

namespace MinCpuForth.Kernel
open Python Domain Layout Adapters Lib ListMemoryAdapter MemoryDictionaryAdapter

namespace KernelBuilder

variable {n : ℕ} {m m' : ListMemoryAdapter n} {d d' : Dictionary} {word_cfas word_cfas' : PyDict ℤ}

section Instances

attribute [local instance] UnicodeData.ascii

end Instances

end KernelBuilder

end MinCpuForth.Kernel
