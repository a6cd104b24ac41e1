/-
  `config.rs`: the tunable limits and protocol constants, with the source's values.

  Counts, byte totals, sequence numbers and millisecond clocks are `Nat`. The
  source keeps them in `u64`, `usize` and `u32`; the two agree as long as no
  total reaches 2^64, and where a bound below that matters it is written out.
-/
import Mathlib.Tactic

namespace AxenoRelay

def maxQueuePerRecipient : Nat := 500
def maxFrameBytes : Nat := 512 * 1024
def perMailboxQueueBytes : Nat := 8 * 1024 * 1024
def globalQueueDiskCapBytes : Nat := 4 * 1024 * 1024 * 1024
def queueTtlMs : Nat := 14 * 24 * 60 * 60 * 1000
def protocolMinSupported : Nat := 4
def protocolVersion : Nat := 7
def senderCertTtlMs : Nat := 24 * 60 * 60 * 1000
def rateWindowMs : Nat := 60 * 1000
def maxFramesPerWindow : Nat := 600
def maxMailboxes : Nat := 50000
def maxDeliveryTokensPerMailbox : Nat := 64
def maxBundles : Nat := 50000
def maxBundleBytes : Nat := 16 * 1024
def maxTotalBundleBytes : Nat := 64 * 1024 * 1024
def maxBundleTtlMs : Nat := 30 * 24 * 60 * 60 * 1000
def outboundQueueCapacity : Nat := 256
def maxSendsPerDestPerWindow : Nat := 120
def powLeadingZeroBits : Nat := 22
def mailboxIdleTtlMs : Nat := 30 * 24 * 60 * 60 * 1000
def mailboxActivityGranularityMs : Nat := 24 * 60 * 60 * 1000
def maxConnections : Nat := 16384
def bundlePruneMinIntervalMs : Nat := 30 * 1000
def incompleteFileTtlMs : Nat := 60 * 60 * 1000
def defaultMaxFileMib : Nat := 32
def defaultMaxTotalFileMib : Nat := 8 * 1024
def defaultFileTtlHours : Nat := 7 * 24
def defaultMaxFileTransfers : Nat := 50000
def minFileChunkBytes : Nat := 16 * 1024

/-- Operator-tunable file-transfer limits. -/
structure FileConfig where
  maxFileBytes : Nat
  maxTotalFileBytes : Nat
  fileTtlMs : Nat
  maxTransfers : Nat
  maxChunks : Nat
  deriving DecidableEq, Repr

end AxenoRelay
