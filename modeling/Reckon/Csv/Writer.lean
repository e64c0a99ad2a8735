/-!
# Writing comma separated records

Fields are separated by commas and a line feed ends each record. A field is put in quotes only
if it holds a comma, a quote or the end of a line; inside quotes a quote is written twice. A record
of one empty field is a pair of quotes, so that it is not an empty line.

Writers differ in one point, which is left open here. Older ones know the line feed alone as the
end of a line, because it ends their records, and write a carriage return bare. Newer ones put a
field in quotes for a carriage return too.
-/

namespace Reckon.Csv

abbrev Field := List Char

abbrev Record := List Field

/-- Whether a field is put in quotes, by a writer that may quote carriage returns. -/
def needsQuotes (quotesReturn : Bool) (field : Field) : Bool :=
  field.any fun c ↦ c == ',' || c == '"' || c == '\n' || quotesReturn && c == '\r'

def double (field : Field) : List Char :=
  field.flatMap fun c ↦ if c = '"' then ['"', '"'] else [c]

def writeField (quotesReturn : Bool) (field : Field) : List Char :=
  if needsQuotes quotesReturn field then '"' :: double field ++ ['"'] else field

def writeRecord (quotesReturn : Bool) (record : Record) : List Char :=
  if record = [[]] then ['"', '"', '\n']
  else [','].intercalate (record.map (writeField quotesReturn)) ++ ['\n']

def write (quotesReturn : Bool) (records : List Record) : List Char :=
  records.flatMap (writeRecord quotesReturn)

end Reckon.Csv
