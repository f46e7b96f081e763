/-!
# Letter case

Names are compared without regard to letter case, and every name they are
compared with is ASCII. So of Unicode's lowercase mapping only the part that ends
in an ASCII letter can decide a comparison: `A` to `Z`, and the Kelvin sign.
-/
namespace EventPipeline.Text

/-- The lowercase form of `c` where that is an ASCII letter, and `c` itself elsewhere. -/
def lower (c : Char) : Char := if c = '\u212A' then 'k' else c.toLower

/-- The characters of `cs` in lowercase. -/
def lowercase (cs : List Char) : List Char := cs.map lower

end EventPipeline.Text
