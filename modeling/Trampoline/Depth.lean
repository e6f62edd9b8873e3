/-! Depths of frames.

The outermost frame is at depth zero, and a frame opened below another is one
deeper. A depth is a 64-bit counter and wraps around: below the last depth there
is comes depth zero again. -/
namespace Trampoline.Depth

/-- The depth of a frame opened below one of the given depth. -/
def below (depth : Nat) : Nat := (depth + 1) % UInt64.size

end Trampoline.Depth
