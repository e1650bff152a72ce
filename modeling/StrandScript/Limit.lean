/-!
# The nesting limit

Following a strand, building the block tree and running blocks are recursive; calls nested beyond a
limit are a fault. The functions take the limit as an argument and recurse on it.
-/

namespace StrandScript

/-- How deep calls may nest where no other limit is given. -/
def nestingLimit : Nat := 1000

end StrandScript
