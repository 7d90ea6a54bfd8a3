import DemandPaging.Space.Region

/-!
# Coverage

Why an address may be touched: because a declared region contains it, or because it
is within reach of the stack or of the heap.  The reason decides the flags of the page
that a fault brings in.
-/

namespace DemandPaging

/-- **Coverage** of an address that may be touched. -/
inductive Coverage where
  /-- A declared region contains the address. -/
  | region (r : Region)
  /-- The page belongs to the stack, or the stack may grow down to it. -/
  | stack
  /-- The page belongs to the heap, or the heap may grow up to it. -/
  | heap
deriving DecidableEq

namespace Coverage

/-- The flags of a page brought in under this coverage. -/
def flags : Coverage → EntryFlags
  | region r => r.flags
  | stack => .segment
  | heap => .segment

/-- The coverage with all its parts spelled out, for debugging. -/
def inspect : Coverage → String
  | region r =>
      s!"Region(Region \x7b base: Page[4KiB]({hex r.start.val}), page_count: {r.pageCount}, " ++
        s!"readable: {r.permission.read}, writable: {r.permission.write}, " ++
        s!"executable: {r.permission.execute} \x7d)"
  | stack => "Stack"
  | heap => "Heap"

end Coverage

end DemandPaging
