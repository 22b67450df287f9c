/-!
What an arena and its arrays report while they work: every chunk installed or refused, every rewind
that gave memory back, and every node appended to an array.
-/

namespace GrowArena

inductive Event where
  | chunkInstalled (chunkBytes : Nat)
  | chunkRefused (requested chunkBytes : Nat)
  /-- The counters are those from just before the rewind. -/
  | rewound (chunks used allocated : Nat)
  | typedNodeAppended (capacity : Nat)
  | packedNodeAppended (capacity : Nat)
  deriving DecidableEq, Repr

inductive Severity where
  | error
  | debug
  | trace
  deriving DecidableEq, Repr

namespace Event

def severity : Event → Severity
  | chunkRefused .. => .error
  | chunkInstalled .. | rewound .. => .debug
  | typedNodeAppended .. | packedNodeAppended .. => .trace

def message : Event → String
  | chunkInstalled .. => "pool chunk installed"
  | chunkRefused .. => "system allocator refused a pool chunk"
  | rewound .. => "pool rewound"
  | typedNodeAppended .. => "dynamic array node appended"
  | packedNodeAppended .. => "compressed array node appended"

def fields : Event → List (String × Nat)
  | chunkInstalled chunkBytes => [("chunk_bytes", chunkBytes)]
  | chunkRefused requested chunkBytes => [("requested", requested), ("chunk_bytes", chunkBytes)]
  | rewound chunks used allocated =>
      [("chunks", chunks), ("used", used), ("allocated", allocated)]
  | typedNodeAppended capacity | packedNodeAppended capacity => [("capacity", capacity)]

end Event

end GrowArena
