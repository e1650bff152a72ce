import StrandScript.Disk
import StrandScript.Drawing.Picture

/-!
# Requests for drawings

A request asks for a program to be drawn and saved. The drawing is laid out before anything is done
to the disk; its text is made when its file is open.
-/

namespace StrandScript

/-- A request to draw some glyphs in a style, and to save the drawing under a name. -/
structure Request where
  style : Style
  glyphs : List Glyph
  name : Option String

namespace Request

/-- The drawing of a request, laid out. -/
def canvas (r : Request) : Except Fault Picture.Canvas := Picture.canvas r.style r.glyphs

end Request

namespace Disk

/-- Draws and saves what a request asks for. -/
def serve (d : Disk) (r : Request) : Except Fault Unit × Disk :=
  match r.canvas with
  | .error f => (.error f, d)
  | .ok c => d.save (.given r.name) c.text

/-- The disk after some requests, one after the other. -/
def serveAll (d : Disk) (rs : List Request) : Disk := rs.foldl (fun d r => (d.serve r).2) d

end Disk

end StrandScript
